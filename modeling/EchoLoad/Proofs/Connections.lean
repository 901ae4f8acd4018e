import EchoLoad.Proofs.Workload.Mixed
import EchoLoad.Proofs.Workload.Ramp
import EchoLoad.Proofs.Workload.Sweep
import EchoLoad.Random.SplitMix
/-!
What becomes of the connections of a run. A ramp leaks none and closes none twice, and the
connections that it gives up belong to clients that failed. A workload with a fixed pool closes
its pool unless its output fails first.
-/

namespace EchoLoad

theorem Client.establish_refused {limit : Option Duration} {p : Peer} {d : Duration} {x : IoError}
    (h : establish limit p = (d, .refused x)) : p.refuse = some x := by
  unfold establish at h
  split at h <;> split at h
  · cases h
  · cases hr : p.refuse <;> rw [hr] at h <;> cases h
    rfl
  · cases h
  · cases hr : p.refuse <;> rw [hr] at h <;> cases h
    rfl

theorem Client.establish_timedOut {limit : Option Duration} {p : Peer} {d l : Duration}
    (h : establish limit p = (d, .timedOut l)) :
    limit = some l ∧ (p.never = true ∨ l < p.connectDelay) := by
  unfold establish at h
  split at h <;> split at h
  · next hl =>
    cases h
    exact ⟨rfl, by simpa using hl⟩
  · cases hr : p.refuse <;> rw [hr] at h <;> cases h
  · cases h
  · cases hr : p.refuse <;> rw [hr] at h <;> cases h

/-- A client that got a connection has failed: its transport option could not be set, its
handshake failed, or one of its rounds did. -/
def World.HasFailedConnected (o : ClientOptions) (w : World) (n : Nat) (p : Peer) : Prop :=
  w.HasFailed n ∨ (∃ d, Client.establish o.connectTimeout p = (d, .connected)) ∧
    ∃ e, .resolved n (some e) ∈ w.events ∧
      ((∃ x, p.optionError = some x ∧ e = .connect x) ∨
        p.optionError = none ∧ ∃ hello, o.handshake = some hello)

/-- The transport refused an attempt, or did not connect within the deadline. -/
def Connection.NeverConnected (o : ClientOptions) (conn : Connection) : Prop :=
  (conn.fate = .refused ∧ ∃ x, conn.peer.refuse = some x) ∨
    conn.fate = .pending ∧
      ∃ l, o.connectTimeout = some l ∧ (conn.peer.never = true ∨ l < conn.peer.connectDelay)

namespace Settled

variable {o : ClientOptions} {a : Account} {w : World} {n : Nat} {conn : Connection}

/-- Every connection was shut down, or given up by a client that failed, or never stood. -/
theorem fate (h : Settled o a w) (hn : w.network.connections[n]? = some conn) :
    conn.fate = .shutdown ∨ (conn.fate = .dropped ∧ w.HasFailedConnected o n conn.peer) ∨
      conn.NeverConnected o := by
  have hg := h.gone hn
  have hmem : ∀ e, e ∈ fiber Event.client n w.events → e ∈ w.events :=
    fun e he => (mem_fiber.1 he).1
  have hfailed := World.hasFailed_iff (w := w) (n := n)
  generalize fiber Event.client n w.events = es at hg hmem hfailed
  cases hg with
  | closed rounds hf => exact .inl hf
  | failed rounds e hf => exact .inr (.inl ⟨hf, .inl (hfailed.2 ⟨e, List.mem_cons_self⟩)⟩)
  | @declined e hd =>
    have he : .resolved n (some e) ∈ w.events := hmem _ List.mem_cons_self
    cases hd with
    | refused hest hf => exact .inr (.inr (.inl ⟨hf, _, Client.establish_refused hest⟩))
    | late hest hf => exact .inr (.inr (.inr ⟨hf, _, Client.establish_timedOut hest⟩))
    | option hest hx hf => exact .inr (.inl ⟨hf, .inr ⟨⟨_, hest⟩, _, he, .inl ⟨_, hx, rfl⟩⟩⟩)
    | handshake hest hx hh hf => exact .inr (.inl ⟨hf, .inr ⟨⟨_, hest⟩, _, he, .inr ⟨hx, _, hh⟩⟩⟩)

end Settled

/-- **A ramp leaks no connection and closes none twice.** However it returns, no connection is
open; each client that connected and failed no round was closed once, and no connection was
closed unless it is shut down; a connection given up belongs to a client that failed; and every
other attempt never got a connection. A report counts the connections shut down, which are those
of the clients that connected and failed no round. -/
theorem ramp_closes_connections {set : Setting} {fuel : Nat} {s : RampSettings} {o : Output}
    {session session' : Session} {result : Except RunError RampReport}
    (hw : session.world.Fresh) (h : Ramp.run set fuel s o session = .ok (session', result)) :
    let w := session'.world
    (∀ n conn, w.network.connections[n]? = some conn →
      conn.fate ≠ .open ∧
      w.closings n = (if conn.fate = .shutdown then 1 else 0) ∧
      (conn.fate = .shutdown ∨ (conn.fate = .dropped ∧ w.HasFailedConnected set.options n conn.peer) ∨
        conn.NeverConnected set.options)) ∧
    (∀ n, w.HasConnected n → ¬ w.HasFailed n →
      ∃ conn, w.network.connections[n]? = some conn ∧ conn.fate = .shutdown ∧ w.closings n = 1) ∧
    ∀ r, result = .ok r →
      r.closed = w.network.connections.countP (fun conn => conn.fate = .shutdown) ∧
      r.closed + (List.range w.network.connections.length).countP (fun n => w.HasFailed n) =
        r.joinSamples := by
  obtain ⟨a, ending, hs, -, hr⟩ := Ramp.run_ledger hw h
  refine ⟨fun n conn hn => ⟨?_, hs.closings hn, hs.fate hn⟩, fun n hc hf => hs.clean hc hf,
    fun r hok => ?_⟩
  · rcases hs.fate hn with hf | ⟨hf, -⟩ | ⟨hf, -⟩ | ⟨hf, -⟩ <;> rw [hf] <;> nofun
  · obtain ⟨-, hclosed, hjoins⟩ := hr r hok
    rw [hclosed, hjoins]
    exact ⟨hs.count.1.symm, hs.count.2⟩

/-- A batch of three: one client connects, one cannot set its option, one is refused. -/
theorem ramp_closes_connections_three :
    ∃ session' r,
      Ramp.run { source := SplitMix.source #[] 0 } 20 { batchSize := 3, payload := .fixed 0 }
        ⟨".", "r"⟩ { world := { network := { peers :=
          [{}, { optionError := some .writeZero }, { refuse := some .writeZero }] } } } =
          .ok (session', .ok r) ∧
      r.closed = 1 ∧
      r.closed = session'.world.network.connections.countP (fun conn => conn.fate = .shutdown) := by
  have hrun : ((Ramp.run { source := SplitMix.source #[] 0 } 20
      { batchSize := 3, payload := .fixed 0 } ⟨".", "r"⟩ { world := { network := { peers :=
        [{}, { optionError := some .writeZero }, { refuse := some .writeZero }] } } }).toOption.any
        fun x => x.2.toOption.any fun r => r.closed = 1) = true := by
    decide +kernel
  obtain ⟨⟨session', result⟩, h, hresult⟩ := toOption_any.1 hrun
  obtain ⟨r, rfl, hclosed⟩ := toOption_any.1 hresult
  have hfresh : ({ network := { peers :=
      [{}, { optionError := some .writeZero }, { refuse := some .writeZero }] } } : World).Fresh :=
    ⟨rfl, rfl, rfl, rfl, rfl, rfl, rfl, rfl⟩
  exact ⟨session', r, h, of_decide_eq_true hclosed,
    ((ramp_closes_connections hfresh h).2.2 r rfl).1⟩

/-! ## A fixed pool -/

namespace World

/-- Every client that connected and failed no round was closed once. -/
def ClosesPool (w : World) : Prop :=
  ∀ n, w.HasConnected n → ¬ w.HasFailed n →
    ∃ conn, w.network.connections[n]? = some conn ∧ conn.fate = .shutdown ∧ w.closings n = 1

/-- Every client that connected and failed no round lost its connection and was not closed. -/
def DropsPool (w : World) : Prop :=
  ∀ n, w.HasConnected n → ¬ w.HasFailed n →
    ∃ conn, w.network.connections[n]? = some conn ∧ conn.fate = .dropped ∧ w.closings n = 0

end World

/-- An output error found the pool in hand. -/
def FailsWithPool {ρ : Type} (w : World) : Except RunError ρ → Prop
  | .error (.output _) => w.failedAttempts = []
  | _ => False

instance {ρ : Type} (w : World) (result : Except RunError ρ) : Decidable (FailsWithPool w result) := by
  unfold FailsWithPool
  split <;> infer_instance

theorem Fails.pool {o : ClientOptions} {w : World} {e : RunError} {ρ : Type} (h : Fails o w e) :
    (FailsWithPool w (.error e : Except RunError ρ) → w.DropsPool) ∧
      (¬ FailsWithPool w (.error e : Except RunError ρ) → w.ClosesPool) := by
  cases h with
  | closed hs hne =>
    refine ⟨fun hg => ?_, fun _ n hc hf => hs.clean hc hf⟩
    cases e with
    | output x => exact (hne hg).elim
    | pool | echo => exact hg.elim
  | abandoned ha hnil =>
    exact ⟨fun _ n hc hf => ha.gone hc hf, fun hg => (hg hnil).elim⟩

/-- **When a fixed pool is closed.** On every return path each client that connected and failed no
round was closed once, but for one: if the output fails after a pool was established without a
failed attempt, no such client is closed and all their connections are given up. -/
theorem pool_closed_iff (set : Setting) (fuel : Nat) (o : Output) {session : Session}
    (hw : session.world.Fresh) :
    (∀ s session' result, Sweep.run set fuel s o session = .ok (session', result) →
      (FailsWithPool session'.world result → session'.world.DropsPool) ∧
      (¬ FailsWithPool session'.world result → session'.world.ClosesPool)) ∧
    (∀ s session' result, Mixed.run set fuel s o session = .ok (session', result) →
      (FailsWithPool session'.world result → session'.world.DropsPool) ∧
      (¬ FailsWithPool session'.world result → session'.world.ClosesPool)) := by
  have hok : ∀ {ρ : Type} {w : World} {r : ρ}, (∃ a, Settled set.options a w) →
      (FailsWithPool w (.ok r) → w.DropsPool) ∧ (¬ FailsWithPool w (.ok r) → w.ClosesPool) := by
    rintro ρ w r ⟨a, hs⟩
    exact ⟨fun hg => hg.elim, fun _ n hc hf => hs.clean hc hf⟩
  constructor
  · intro s session' result h
    obtain ⟨hreport, herror⟩ := Sweep.run_ledger hw h
    cases result with
    | ok r => exact hok (hreport r rfl).1
    | error e => exact (herror e rfl).pool
  · intro s session' result h
    obtain ⟨hreport, herror⟩ := Mixed.run_ledger hw h
    cases result with
    | ok r => exact hok (hreport r rfl).1
    | error e => exact (herror e rfl).pool

/-- A directory is in the way of the join latencies, so a pool of one is given up. -/
theorem pool_closed_blocked :
    ∃ session' result,
      Sweep.run { source := SplitMix.source #[] 0 } 20
        { clients := 1, batchSize := 1, sizes := [], phaseEnd := .rounds 1 } ⟨".", "r"⟩
        { world := {}, store := { entries := [(["r-join-lat.csv"], .directory)] } } =
          .ok (session', result) ∧
      session'.world.DropsPool ∧ session'.world.HasConnected 0 ∧ ¬ session'.world.HasFailed 0 := by
  have hrun : ((Sweep.run { source := SplitMix.source #[] 0 } 20
      { clients := 1, batchSize := 1, sizes := [], phaseEnd := .rounds 1 } ⟨".", "r"⟩
      { world := {}, store := { entries := [(["r-join-lat.csv"], .directory)] } }).toOption.any
        fun x => FailsWithPool x.1.world x.2 ∧ .resolved 0 none ∈ x.1.world.events ∧
          ¬ x.1.world.HasFailed 0) = true := by
    decide +kernel
  obtain ⟨⟨session', result⟩, h, hresult⟩ := toOption_any.1 hrun
  obtain ⟨hgives, hconnected, hfailed⟩ := of_decide_eq_true hresult
  have hfresh : ({} : World).Fresh := ⟨rfl, rfl, rfl, rfl, rfl, rfl, rfl, rfl⟩
  exact ⟨session', result, h, ((pool_closed_iff _ _ _ hfresh).1 _ _ _ h).1 hgives, hconnected,
    hfailed⟩

end EchoLoad
