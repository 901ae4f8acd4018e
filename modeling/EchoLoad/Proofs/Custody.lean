import EchoLoad.Proofs.Exchange
import EchoLoad.Proofs.History
import EchoLoad.Proofs.InternalStep
/-!
Who holds a client. At any moment a client that holds its connection is in one place: it is an
attempt in flight, in a loop, among those that have just connected, or in the hands of the
controller. `Placed` says what its connection and its events look like there, and `Custody`
that every client stands so. Main statements: one lemma for each thing that can happen, and
`InternalStep.custody` for all that happens while the controller waits.
-/

namespace EchoLoad

/-- What is known of one client: its connection, its events (the latest first), its attempt in
flight, its loop, and itself if it is in someone's hands. -/
structure View where
  connection : Option Connection
  events : List Event
  dials : List Dial
  workers : List Worker
  hands : List Client

def Dial.id (d : Dial) : Nat := d.client.id

def Worker.id (k : Worker) : Nat := k.client.id

namespace World

/-- What is known of client `n` when the controller holds `held`. -/
def view (w : World) (held : List Client) (n : Nat) : View where
  connection := w.network.connections[n]?
  events := fiber Event.client n w.events
  dials := fiber Dial.id n w.dials
  workers := fiber Worker.id n w.workers
  hands := fiber Client.id n (held ++ w.connected)

end World

/-! ## What a client looks like in each place -/

/-- The events of client `n` when it has connected and `rounds` rounds were echoed. -/
def lived (n : Nat) : Nat → List Event
  | 0 => [.resolved n none, .attempt n]
  | rounds + 1 => .roundEnded n none :: .roundStarted n :: lived n rounds

inductive AtRest (n : Nat) (c : Client) (conn : Connection) : List Event → Prop
  | clean (rounds : Nat) : c.Holds conn → AtRest n c conn (lived n rounds)
  | failed (rounds : Nat) (e : ClientError) : c.GaveUp conn →
      AtRest n c conn (.roundEnded n (some e) :: .roundStarted n :: lived n rounds)

inductive InLoop (n : Nat) (k : Worker) (conn : Connection) : List Event → Prop
  | ready (rounds : Nat) : k.stage = .ready → k.client.Holds conn →
      InLoop n k conn (lived n rounds)
  | busy (rounds : Nat) {ending : Ending} : k.stage = .busy ending →
      k.client.RoundLeaves conn ending → InLoop n k conn (.roundStarted n :: lived n rounds)
  | done {es : List Event} : k.stage = .done → AtRest n k.client conn es → InLoop n k conn es

/-- Out of everyone's hands after having connected. -/
inductive Released (n : Nat) (conn : Connection) : List Event → Prop
  | closed (rounds : Nat) : conn.fate = .shutdown → Released n conn (.closed n :: lived n rounds)
  | failed (rounds : Nat) (e : ClientError) : conn.fate = .dropped →
      Released n conn (.roundEnded n (some e) :: .roundStarted n :: lived n rounds)

/-- A client is in one place only, and looks as it must there. -/
inductive Placed (o : ClientOptions) (n : Nat) : View → Prop
  | absent : Placed o n ⟨none, [], [], [], []⟩
  | dialing {conn : Connection} {d : Dial} : Client.ConnectLeaves o d.client conn d.ending →
      Placed o n ⟨some conn, [.attempt n], [d], [], []⟩
  | declined {conn : Connection} {e : ClientError} : Client.Declined o conn e →
      Placed o n ⟨some conn, [.resolved n (some e), .attempt n], [], [], []⟩
  | working {conn : Connection} {es : List Event} {k : Worker} : InLoop n k conn es →
      Placed o n ⟨some conn, es, [], [k], []⟩
  | held {conn : Connection} {es : List Event} {c : Client} : AtRest n c conn es →
      Placed o n ⟨some conn, es, [], [], [c]⟩
  | past {conn : Connection} {es : List Event} : Released n conn es →
      Placed o n ⟨some conn, es, [], [], []⟩

/-- Every client stands as it must when the controller holds `held`. -/
def Custody (o : ClientOptions) (held : List Client) (w : World) : Prop :=
  ∀ n, Placed o n (w.view held n)

namespace Placed

variable {o : ClientOptions} {n : Nat} {v : View}

theorem of_none (h : Placed o n v) (hv : v.connection = none) : v = ⟨none, [], [], [], []⟩ := by
  cases h <;> first | rfl | cases hv

theorem of_dial (h : Placed o n v) {d : Dial} (hd : d ∈ v.dials) :
    ∃ conn, v = ⟨some conn, [.attempt n], [d], [], []⟩ ∧
      Client.ConnectLeaves o d.client conn d.ending := by
  cases h with
  | dialing hc =>
    cases List.mem_singleton.1 hd
    exact ⟨_, rfl, hc⟩
  | _ => cases hd

theorem of_worker (h : Placed o n v) {k : Worker} (hk : k ∈ v.workers) :
    ∃ conn es, v = ⟨some conn, es, [], [k], []⟩ ∧ InLoop n k conn es := by
  cases h with
  | working hw =>
    cases List.mem_singleton.1 hk
    exact ⟨_, _, rfl, hw⟩
  | _ => cases hk

theorem of_hand (h : Placed o n v) {c : Client} (hc : c ∈ v.hands) :
    ∃ conn es, v = ⟨some conn, es, [], [], [c]⟩ ∧ AtRest n c conn es := by
  cases h with
  | held hr =>
    cases List.mem_singleton.1 hc
    exact ⟨_, _, rfl, hr⟩
  | _ => cases hc

end Placed

theorem InLoop.of_ready {n : Nat} {k : Worker} {conn : Connection} {es : List Event}
    (h : InLoop n k conn es) (hs : k.stage = .ready) :
    k.client.Holds conn ∧ ∃ rounds, es = lived n rounds := by
  cases h with
  | ready rounds _ hc => exact ⟨hc, rounds, rfl⟩
  | busy _ hb => rw [hs] at hb; cases hb
  | done hd => rw [hs] at hd; cases hd

theorem InLoop.of_busy {n : Nat} {k : Worker} {conn : Connection} {es : List Event}
    {ending : Ending} (h : InLoop n k conn es) (hs : k.stage = .busy ending) :
    k.client.RoundLeaves conn ending ∧ ∃ rounds, es = .roundStarted n :: lived n rounds := by
  cases h with
  | ready _ hr => rw [hs] at hr; cases hr
  | busy rounds hb hl =>
    rw [hs] at hb
    cases hb
    exact ⟨hl, rounds, rfl⟩
  | done hd => rw [hs] at hd; cases hd

theorem InLoop.of_done {n : Nat} {k : Worker} {conn : Connection} {es : List Event}
    (h : InLoop n k conn es) (hs : k.stage = .done) : AtRest n k.client conn es := by
  cases h with
  | ready _ hr => rw [hs] at hr; cases hr
  | busy _ hb => rw [hs] at hb; cases hb
  | done _ hr => exact hr

/-! ## What happens while the controller waits -/

namespace Custody

variable {o : ClientOptions} {held held' : List Client} {w w' : World}

theorem update (h : Custody o held w) (n : Nat)
    (helse : ∀ m, m ≠ n → w'.view held' m = w.view held m)
    (hn : Placed o n (w'.view held' n)) : Custody o held' w' := by
  intro m
  by_cases hm : m = n
  · exact hm ▸ hn
  · exact helse m hm ▸ h m

/-- Whatever happened to a client happened on a connection of its own. -/
theorem client_lt (h : Custody o held w) {e : Event} (he : e ∈ w.events) :
    e.client < w.network.connections.length := by
  by_contra hle
  have hnone := (h e.client).of_none (List.getElem?_eq_none (Nat.le_of_not_lt hle))
  have hmem := mem_fiber_self Event.client he
  rw [show fiber Event.client e.client w.events = [] from congrArg View.events hnone] at hmem
  cases hmem

theorem at_worker (h : Custody o held w) {i : Nat} {k : Worker} (hk : w.workers[i]? = some k) :
    ∃ conn es, w.view held k.id = ⟨some conn, es, [], [k], []⟩ ∧ InLoop k.id k conn es :=
  (h k.id).of_worker (mem_fiber_self Worker.id (List.mem_of_getElem? hk))

/-- Loop `i` goes on as `k'`, with the events `es` of its client on top, and perhaps with
another state of its connection. -/
theorem set_worker (h : Custody o held w) {i : Nat} {k : Worker} (k' : Worker) (es : List Event)
    (f : Connection → Connection) (hk : w.workers[i]? = some k) (hid : k'.id = k.id)
    (hes : ∀ e ∈ es, e.client = k.id) (hworkers : w'.workers = w.workers.set i k')
    (hevents : w'.events = es ++ w.events)
    (hnet : w'.network.connections = w.network.connections.modify k.id f)
    (hdials : w'.dials = w.dials) (hconnected : w'.connected = w.connected)
    (hnew : ∀ conn past, InLoop k.id k conn past → w.network.connections[k.id]? = some conn →
      InLoop k.id k' (f conn) (es ++ past)) : Custody o held w' := by
  obtain ⟨conn, past, hv, hwk⟩ := h.at_worker hk
  simp only [World.view, View.mk.injEq] at hv
  obtain ⟨hc, hp, hd, hf, hh⟩ := hv
  refine h.update k.id (fun m hm => ?_) ?_
  · have he : fiber Event.client m es = [] := by
      refine List.eq_nil_iff_forall_not_mem.2 fun e hin => hm ?_
      obtain ⟨hin', he⟩ := mem_fiber.1 hin
      exact he ▸ hes e hin'
    simp only [World.view, hworkers, hevents, hnet, hdials, hconnected, fiber_append, he,
      List.getElem?_modify_ne _ _ (Ne.symm hm), fiber_set_ne hk hid hm, List.nil_append]
  · have he : fiber Event.client k.id es = es :=
      List.filter_eq_self.2 fun e hin => by simpa using hes e hin
    have hconn : w'.network.connections[k.id]? = some (f conn) := by
      rw [hnet, List.getElem?_modify_eq, hc]
      rfl
    have hview : w'.view held k.id = ⟨some (f conn), es ++ past, [], [k'], []⟩ := by
      simp only [World.view, hworkers, hevents, hdials, hconnected, fiber_append _ es, he, hp, hd, hh,
        fiber_set_self hk hf hid, hconn]
    rw [hview]
    exact .working (hnew conn past hwk hc)

theorem startRound {set : Setting} (h : Custody set.options held w) {i : Nat} {k : Worker}
    (hk : w.workers[i]? = some k) (hs : k.stage = .ready) (payload : Bytes) (source : Source) :
    Custody set.options held (w.startRound set i k payload source) := by
  obtain ⟨conn, _, hv, hwk⟩ := h.at_worker hk
  obtain ⟨conn', hnet, -, hid, hl⟩ := k.client.echoRound_open set.options w.now payload w.network
    conn (hwk.of_ready hs).1 (congrArg View.connection hv)
  refine h.set_worker { k with client := _, source, stage := .busy _ } [.roundStarted k.id]
    (fun _ => conn') hk hid (by simp [Event.client]) rfl rfl (congrArg Network.connections hnet)
    rfl rfl ?_
  intro _ _ hwk _
  obtain ⟨-, rounds, rfl⟩ := hwk.of_ready hs
  exact .busy rounds rfl hl

theorem echoed (h : Custody o held w) {i : Nat} {k : Worker} {t latency : Duration}
    (hk : w.workers[i]? = some k) (hs : k.stage = .busy (some (t, .ok latency))) :
    Custody o held (w.echoed i k latency) := by
  refine h.set_worker k.advance [.roundEnded k.id none] id hk rfl (by simp [Event.client])
    rfl rfl (List.modify_id ..).symm rfl rfl ?_
  intro conn past hwk _
  obtain ⟨hl, rounds, rfl⟩ := hwk.of_busy hs
  exact .ready (rounds + 1) rfl hl

theorem broken (h : Custody o held w) {i : Nat} {k : Worker} {t : Duration} {e : ClientError}
    (hk : w.workers[i]? = some k) (hs : k.stage = .busy (some (t, .error e))) :
    Custody o held (w.broken i k e) := by
  refine h.set_worker { k with stage := .done } [.roundEnded k.id (some e)] id hk rfl
    (by simp [Event.client]) rfl rfl (List.modify_id ..).symm rfl rfl ?_
  intro conn past hwk _
  obtain ⟨hl, rounds, rfl⟩ := hwk.of_busy hs
  exact .done rfl (.failed rounds e hl)

theorem retire (h : Custody o held w) {i : Nat} {k : Worker} (hk : w.workers[i]? = some k)
    (hs : k.stage = .ready) : Custody o held (w.retire i k) := by
  refine h.set_worker { k with stage := .done } [] id hk rfl (by simp) rfl rfl
    (List.modify_id ..).symm rfl rfl ?_
  intro conn past hwk _
  obtain ⟨hcl, rounds, rfl⟩ := hwk.of_ready hs
  exact .done rfl (.clean rounds hcl)

theorem at_dial (h : Custody o held w) {i : Nat} {d : Dial} (hd : w.dials[i]? = some d) :
    ∃ conn, w.view held d.id = ⟨some conn, [.attempt d.id], [d], [], []⟩ ∧
      Client.ConnectLeaves o d.client conn d.ending :=
  (h d.id).of_dial (mem_fiber_self Dial.id (List.mem_of_getElem? hd))

theorem arrived (h : Custody o held w) {i : Nat} {c : Client} {t latency : Duration}
    (hd : w.dials[i]? = some ⟨c, some (t, .ok latency)⟩) :
    Custody o held (w.arrived i c latency) := by
  obtain ⟨conn, hv, hl⟩ := h.at_dial hd
  simp only [World.view, View.mk.injEq] at hv
  obtain ⟨hc, hp, hds, hf, hh⟩ := hv
  refine h.update c.id (fun m hm => (View.mk.injEq ..).mpr ?_) ?_
  · refine ⟨rfl, fiber_cons_ne Event.client hm _, fiber_eraseIdx_ne hd hm, rfl, ?_⟩
    rw [World.arrived, ← List.append_assoc, fiber_append, fiber_cons_ne Client.id hm, fiber_nil,
      List.append_nil]
  · have hview : (w.arrived i c latency).view held c.id =
        ⟨some conn, lived c.id 0, [], [], [c]⟩ := by
      refine (View.mk.injEq ..).mpr ⟨hc, ?_, fiber_eraseIdx_self hd hds, hf, ?_⟩
      · exact (fiber_cons_self Event.client _ _).trans (congrArg _ hp)
      · rw [World.arrived, ← List.append_assoc, fiber_append]
        exact congrArg₂ _ hh (fiber_cons_self Client.id c [])
    rw [hview]
    exact .held (.clean 0 hl)

theorem declined (h : Custody o held w) {i : Nat} {c : Client} {t : Duration} {e : ClientError}
    (hd : w.dials[i]? = some ⟨c, some (t, .error e)⟩) : Custody o held (w.declined i c e) := by
  obtain ⟨conn, hv, hl⟩ := h.at_dial hd
  simp only [World.view, View.mk.injEq] at hv
  obtain ⟨hc, hp, hds, hf, hh⟩ := hv
  refine h.update c.id (fun m hm => (View.mk.injEq ..).mpr ?_) ?_
  · exact ⟨rfl, fiber_cons_ne Event.client hm _, fiber_eraseIdx_ne hd hm, rfl, rfl⟩
  · have hview : (w.declined i c e).view held c.id =
        ⟨some conn, [.resolved c.id (some e), .attempt c.id], [], [], []⟩ := by
      refine (View.mk.injEq ..).mpr ⟨hc, ?_, fiber_eraseIdx_self hd hds, hf, hh⟩
      exact (fiber_cons_self Event.client _ _).trans (congrArg _ hp)
    rw [hview]
    exact .declined hl

theorem interrupted (h : Custody o held w) : Custody o held w.interrupted := by
  have hv : ∀ n, w.interrupted.view held n = w.view held n := by
    intro n
    unfold World.interrupted
    split <;> rfl
  exact fun n => hv n ▸ h n

end Custody

/-- **Custody is kept by all that happens while the controller waits.** -/
theorem World.InternalStep.custody {set : Setting} {held : List Client} {w w' : World}
    (hs : World.InternalStep set w w') (h : Custody set.options held w) :
    Custody set.options held w' := by
  cases hs with
  | signal => exact h.interrupted
  | arrived hd => exact h.arrived hd
  | declined hd => exact h.declined hd
  | echoed hk hst => exact h.echoed hk hst
  | broken hk hst => exact h.broken hk hst
  | start hk hst => exact h.startRound hk hst _ _
  | retire hk hst => exact h.retire hk hst

end EchoLoad
