import EchoLoad.Proofs.Idle
import EchoLoad.Proofs.Tally
import EchoLoad.Proofs.Workload.RunSteps
import EchoLoad.Proofs.Workload.Mixed
/-!
Clients that have done no round. Every client comes so from its attempt to connect, and as long as
the run flag is clear no loop uses it. Main statement: `Mixed.run_unused`.
-/

namespace EchoLoad

/-- No round has been counted. -/
def Client.Unused (c : Client) : Prop := c.rounds = 0 ∧ c.bytesSent = 0

theorem Client.exchange_unused (o : ClientOptions) {c : Client} (now : Duration) (payload : Bytes)
    (net : Network) (h : c.Unused) : (c.exchange o now payload net).client.Unused := by
  obtain ⟨hrounds, hbytes⟩ := exchange_counts o c now payload net
  exact ⟨hrounds.trans h.1, hbytes.trans h.2⟩

/-- Connecting counts nothing, not even the handshake. -/
theorem Client.connect_unused (o : ClientOptions) {c : Client} (now : Duration) (net : Network)
    (h : c.Unused) : (c.connect o now net).client.Unused := by
  unfold connect
  split
  · exact h
  · dsimp only
    split
    · exact h
    · exact h
    · exact h
    · split
      · exact h
      · split
        · exact h
        · exact exchange_unused o _ _ _ h

namespace World

variable {set : Setting} {fuel : Nat} {w w' : World}

/-- No client that is connecting or has connected has done a round. -/
structure Unused (w : World) : Prop where
  dials : ∀ d ∈ w.dials, d.client.Unused
  connected : ∀ c ∈ w.connected, c.Unused

theorem Unused.congr (h : w.Unused) (hdials : w'.dials = w.dials)
    (hconnected : w'.connected = w.connected) : w'.Unused :=
  ⟨hdials ▸ h.dials, hconnected ▸ h.connected⟩

theorem Unused.internalStep (h : w.Unused) (hs : InternalStep set w w') : w'.Unused := by
  cases hs with
  | signal hsignal =>
    rw [interrupted_eq hsignal]
    exact h.congr rfl rfl
  | arrived hd =>
    constructor
    · exact fun d hmem => h.dials d (List.eraseIdx_subset hmem)
    · intro c hmem
      rcases List.mem_append.1 hmem with hmem | hmem
      · exact h.connected c hmem
      · rw [List.mem_singleton.1 hmem]
        exact h.dials _ (List.mem_of_getElem? hd)
  | declined =>
    constructor
    · exact fun d hmem => h.dials d (List.eraseIdx_subset hmem)
    · exact h.connected
  | echoed | broken | start | retire => exact h.congr rfl rfl

theorem Unused.kept (set : Setting) : Kept set Unused := by
  intro w w' h hmove
  cases hmove with
  | pass | failures | join | cancel | restart | spawn | sink | release => exact h.congr rfl rfl
  | internalStep hs => exact h.internalStep hs
  | dial id =>
    constructor
    · intro d hmem
      rcases List.mem_append.1 hmem with hmem | hmem
      · exact h.dials d hmem
      · rw [List.mem_singleton.1 hmem]
        exact Client.connect_unused _ _ _ ⟨rfl, rfl⟩
    · exact h.connected
  | handOver =>
    constructor
    · exact h.dials
    · exact nofun
  | close c =>
    unfold World.close
    split <;> exact h.congr rfl rfl

/-- **No loop uses its client while the flag is clear.** -/
theorem joinAll_unused {limit : Option Duration} {clients : List Client} {failure : Option Failure}
    (hactive : w.active = false) (hworkers : ∀ k ∈ w.workers, k.stage = .ready ∧ k.client.Unused)
    (h : w.joinAll set fuel limit = .ok (w', clients, failure)) : ∀ c ∈ clients, c.Unused := by
  have hwait : ∀ w1 (crew : Crew), w.attend set joining fuel
      { deadline := limit.map (w.now + ·) } = .ok (w1, crew) → ∀ c ∈ crew.clients, c.Unused := by
    intro w1 crew ha
    refine attend_rule (I := fun c w => w.active = false ∧
        (∀ k ∈ w.workers, (k.stage = .ready ∨ k.stage = .done) ∧ k.client.Unused) ∧
        ∀ x ∈ c.clients, x.Unused)
      (Q := fun _ c => ∀ x ∈ c.clients, x.Unused) ?_ ?_ ?_ ⟨hactive, fun k hk => ?_, nofun⟩ ha
    · exact fun _ _ _ h => h
    · rintro c w w' ⟨hactive, hworkers, hclients⟩ hs
      cases hs with
      | signal hsignal =>
        rw [interrupted_eq hsignal]
        exact ⟨by simp [hactive], hworkers, hclients⟩
      | arrived | declined => exact ⟨hactive, hworkers, hclients⟩
      | echoed hk hs | broken hk hs =>
        have hstage := (hworkers _ (List.mem_of_getElem? hk)).1
        simp [hs] at hstage
      | start _ _ ha => exact absurd (ha.symm.trans hactive) Bool.noConfusion
      | retire hk =>
        refine ⟨hactive, forall_mem_set hworkers ?_, hclients⟩
        exact ⟨.inr rfl, (hworkers _ (List.mem_of_getElem? hk)).2⟩
    · rintro c w w' b ⟨hactive, hworkers, hclients⟩ hr
      cases hr with
      | alarm => exact ⟨rfl, hworkers, hclients⟩
      | mail => exact ⟨rfl, hworkers, hclients⟩
      | joined hk =>
        refine ⟨hactive, fun x hx => hworkers x (List.eraseIdx_subset hx), fun x hx => ?_⟩
        rcases List.mem_append.1 hx with hx | hx
        · exact hclients x hx
        · rw [List.mem_singleton.1 hx]
          exact (hworkers _ (List.mem_of_getElem? hk)).2
      | ended => exact hclients
    · exact ⟨.inl (hworkers k hk).1, (hworkers k hk).2⟩
  obtain ⟨w1, c, failures, ha, rfl, -⟩ := joinAll_ok h
  exact fun x hx => hwait w1 c ha x ((Client.sortById_perm _).mem_iff.1 hx)

end World

namespace Mixed

variable {set : Setting} {fuel : Nat} {s : MixedSettings} {o : Output}

/-- **All that a mixed run with a report has done.** -/
theorem run_ok {session session' : Session} {r : MixedReport}
    (h : run set fuel s o session = .ok (session', .ok r)) :
    ∃ session1 clients joins w1 w2 back failure,
      session.establish set fuel s.clients s.batchSize o = .ok (session1, .ok (clients, joins)) ∧
      spawnAll set s clients set.source
        { session1.world with active := !session1.world.stopped } = .ok w1 ∧
      w1.joinAll set fuel none = .ok (w2, back, failure) ∧
      r.rounds = Client.totalRounds back ∧ r.totalBytes = Client.totalBytes back ∧
      r.interrupted = session'.world.stopped := by
  obtain ⟨session1, clients, joins, w1, w2, back, failure, n, hestablish, hspawn, hjoin, -, rfl⟩ :=
    run_parts h
  exact ⟨session1, clients, joins, w1, w2, back, failure, hestablish, hspawn, hjoin, rfl, rfl, rfl⟩

/-- **A mixed run whose pool was interrupted does no round.** -/
theorem run_unused {session session' session1 : Session} {r : MixedReport}
    {pool : List Client × Nat} (hw : session.world.Fresh)
    (h : run set fuel s o session = .ok (session', .ok r))
    (hestablish : session.establish set fuel s.clients s.batchSize o = .ok (session1, .ok pool))
    (hstopped : session1.world.stopped = true) : r.rounds = 0 ∧ r.totalBytes = 0 := by
  obtain ⟨_, clients, joins, w1, w2, back, failure, hestablish', hspawn, hjoin, hrounds, hbytes,
    -⟩ := run_ok h
  cases hestablish.symm.trans hestablish'
  have hfresh : session.world.Unused := by
    constructor
    · simp [hw.dials]
    · simp [hw.connected]
  have hclients : ∀ c ∈ clients, c.Unused :=
    (Session.establish_keeps (World.Unused.kept set).anyPlan (fun _ h => h.connected) hfresh
      hestablish).2
  have hidle : session1.world.workers = [] := (Session.establish_idle hw.workers hestablish).workers
  obtain ⟨ks, rfl, rfl, hks⟩ := spawnAll_ok hspawn
  have hback : ∀ c ∈ back, c.Unused := by
    refine World.joinAll_unused ?_ ?_ hjoin
    · simp [hstopped]
    · intro k hk
      rw [show ({ session1.world with active := _ } : World).workers = [] from hidle] at hk
      exact ⟨(hks k hk).1, hclients _ (List.mem_map_of_mem hk)⟩
  rw [hrounds, hbytes, Client.totalRounds_eq, Client.totalBytes_eq]
  constructor
  · exact List.sum_eq_zero fun x hx => by
      obtain ⟨c, hc, rfl⟩ := List.mem_map.1 hx
      exact (hback c hc).1
  · exact List.sum_eq_zero fun x hx => by
      obtain ⟨c, hc, rfl⟩ := List.mem_map.1 hx
      exact (hback c hc).2

end Mixed

end EchoLoad
