import EchoLoad.Proofs.Solo
import EchoLoad.Proofs.Workload.Barrier
import EchoLoad.Random.SplitMix
import Mathlib.Data.List.Perm.Subperm
/-!
A pool is established batch by batch. Each batch has the ids that follow those of the pool so far,
which is right because a batch is only followed by another one if all its members connected. Main
statements: `growPool_grows` for the way a pool grows, and `establishPool_contract`.
-/

namespace EchoLoad

namespace World

variable {set : Setting} {w₀ w w' : World} {fuel first size made : Nat} {watchful : Bool}
  {out : BatchOutcome} {seen : Option Failure} {clients : List Client} {errors : List ClientError}

theorem range_append (n size : Nat) :
    List.range n ++ List.range' n size = List.range (n + size) := by
  rw [List.range_eq_range', List.range_eq_range']
  simpa using List.range'_append_1 (s := 0) (m := n) (n := size)

/-! ## The books of a batch -/

theorem attempted_append {es : List Event} (hes : w'.events = es ++ w.events)
    (hnone : ∀ e ∈ es, e.isAttempt = false) : w'.attempted = w.attempted := by
  have hwait : es.reverse.filterMap Event.attempted? = [] := by
    refine List.filterMap_eq_nil_iff.2 fun e he => ?_
    have hattempt := hnone e (List.mem_reverse.1 he)
    cases e with
    | attempt => cases hattempt
    | _ => rfl
  rw [attempted, hes, List.reverse_append, List.filterMap_append, hwait, List.append_nil]
  rfl

theorem InternalStep.refused (hs : InternalStep set w w') :
    ∃ errors, w'.failedAttempts = w.failedAttempts ++ errors ∧
      w'.refusals = w.refusals ++ errors := by
  have hnothing : w'.events = w.events → w'.refusals = w.refusals →
      ∃ errors, w'.failedAttempts = w.failedAttempts ++ errors ∧
        w'.refusals = w.refusals ++ errors := by
    intro hevents hrefusals
    exact ⟨[], by rw [failedAttempts_congr hevents, List.append_nil],
      by rw [hrefusals, List.append_nil]⟩
  cases hs with
  | signal hsignal =>
    rw [interrupted_eq hsignal] at hnothing ⊢
    exact hnothing rfl rfl
  | declined => exact ⟨_, failedAttempts_cons rfl, rfl⟩
  | arrived | echoed | broken | start =>
    exact ⟨_, failedAttempts_cons rfl, (List.append_nil _).symm⟩
  | retire => exact hnothing rfl rfl

theorem connectBatch_books (hq : w.NoBatch)
    (h : w.connectBatch set fuel first size watchful = .ok (w', out, seen)) :
    w'.attempted = w.attempted ++ List.range' first size ∧
      w'.failedAttempts = w.failedAttempts ++ out.refusals := by
  obtain ⟨⟨w₁, seen₁⟩, hwait, he⟩ := map_eq_ok.1 h
  cases he
  let I (w₁ : World) : Prop := w₁.attempted = w.attempted ++ List.range' first size ∧
    w₁.failedAttempts = w.failedAttempts ++ w₁.refusals
  have hstart : I (w.dialBatch set first size) := by
    have hevents := dialBatch_events set w first size
    have hids : ((List.range' first size).map Event.attempt).filterMap Event.attempted? =
        List.range' first size := by
      rw [List.filterMap_map]
      exact List.filterMap_some
    have hnone : ((List.range' first size).map Event.attempt).filterMap Event.failedAttempt? = [] := by
      rw [List.filterMap_map]
      exact List.filterMap_eq_nil_iff.2 fun _ _ => rfl
    constructor
    · rw [attempted, hevents, List.reverse_append, List.reverse_reverse, List.filterMap_append, hids]
      rfl
    · rw [failedAttempts, hevents, List.reverse_append, List.reverse_reverse, List.filterMap_append,
        hnone, (dialBatch_frame set w first size).2.2.1, hq.refusals]
      rfl
  refine attend_rule (I := fun _ => I) (Q := fun w₁ _ => I w₁) (fun _ _ _ h => h) ?_ ?_ hstart hwait
  · rintro - w₁ w₂ ⟨hattempted, hfailed⟩ hs
    obtain ⟨es, hes, hnone⟩ := (WaitStep.internalStep hs).events
    obtain ⟨errors, hnew, hrefusals⟩ := hs.refused
    refine ⟨(attempted_append hes fun e he => (hnone e he).1).trans hattempted, ?_⟩
    rw [hnew, hfailed, hrefusals, List.append_assoc]
  · rintro s w₁ w₂ b h hr
    cases hr with
    | alarm ha => cases ha
    | joined _ _ hj => cases hj
    | mail | ended => exact h

/-! ## What a batch adds to a pool -/

/-- A batch hands over clients that have connected and done nothing else, with ids of its own. -/
theorem GoesAlone.fresh {o : ClientOptions} (h : w.GoesAlone o first size w' out) :
    ∀ c ∈ out.connected, (c.state = .connected ∧ c.bytesSent = 0 ∧ c.rounds = 0) ∧
      first ≤ c.id ∧ c.id < first + size := by
  intro c hc
  rw [h.connected] at hc
  obtain ⟨i, hi, hjoined⟩ := List.mem_filterMap.1 hc
  have hid := joiner_id hjoined
  obtain ⟨⟨c', latency⟩, hmember, rfl⟩ := Option.map_eq_some_iff.1 hjoined
  obtain ⟨t, hending⟩ : ∃ t, (w.alone o first i).ending = some (t, .ok latency) := by
    unfold Dial.joined? at hmember
    split at hmember
    · next t latency' he =>
      cases hmember
      exact ⟨t, he⟩
    · cases hmember
  have hclient : c' = (w.alone o first i).client := Dial.joined?_client hmember
  rw [alone, Client.alone, Client.connect_joined hending] at hclient
  subst hclient
  have hlt := List.mem_range.1 hi
  exact ⟨⟨rfl, rfl, rfl⟩, by omega, by omega⟩

/-- What the first `made` attempts since `w₀` have come to: clients that connected, and errors. -/
structure Tried (w₀ : World) (made : Nat) (clients : List Client) (errors : List ClientError)
    (w : World) : Prop where
  noBatch : w.NoBatch
  /-- The ids are those from 0 on, each attempted once. -/
  attempted : w.attempted = w₀.attempted ++ List.range made
  count : clients.length + errors.length = made
  id_lt : ∀ c ∈ clients, c.id < made
  increasing : (clients.map Client.id).Pairwise (· < ·)
  connected : ∀ c ∈ clients, c.state = .connected ∧ c.bytesSent = 0 ∧ c.rounds = 0
  failedAttempts : w.failedAttempts = w₀.failedAttempts ++ errors
  /-- There is one join sample for each client. -/
  joins : ∃ latencies, latencies.length = clients.length ∧
    w.sink.collect.joins.Perm (w₀.sink.collect.joins ++ latencies)

namespace Tried

theorem start (hq : w.NoBatch) : w.Tried 0 [] [] w where
  noBatch := hq
  attempted := (List.append_nil _).symm
  count := rfl
  id_lt := by simp
  increasing := .nil
  connected := by simp
  failedAttempts := (List.append_nil _).symm
  joins := ⟨[], rfl, by rw [List.append_nil]⟩

theorem nodup (h : w₀.Tried made clients errors w) : (clients.map Client.id).Nodup :=
  h.increasing.imp Nat.ne_of_lt

theorem ids (h : w₀.Tried made clients [] w) : clients.map Client.id = List.range made := by
  have hsub : clients.map Client.id ⊆ List.range made := by
    intro n hn
    obtain ⟨c, hc, rfl⟩ := List.mem_map.1 hn
    exact List.mem_range.2 (h.id_lt c hc)
  have hperm : (clients.map Client.id).Perm (List.range made) :=
    (List.subperm_of_subset h.nodup hsub).perm_of_length_le (by simp [← h.count])
  exact List.Perm.eq_of_pairwise (fun _ _ _ _ => Nat.le_antisymm) (h.increasing.imp Nat.le_of_lt)
    (List.pairwise_lt_range.imp Nat.le_of_lt) hperm

/-- If an attempt has failed then an id is missing. -/
theorem exists_missing (h : w₀.Tried made clients errors w) (hne : errors ≠ []) :
    ∃ n < made, n ∉ clients.map Client.id := by
  by_contra hall
  have hsub : List.range made ⊆ clients.map Client.id := by
    intro n hn
    by_contra hmissing
    exact hall ⟨n, List.mem_range.1 hn, hmissing⟩
  have hle := (List.subperm_of_subset List.nodup_range hsub).length_le
  have hcount := h.count
  have hpos := List.length_pos_iff.2 hne
  rw [List.length_range, List.length_map] at hle
  omega

/-- **One batch more**, behind batches without a failure. -/
theorem batch (h : w₀.Tried clients.length clients [] w)
    (hc : w.connectBatch set fuel clients.length size watchful = .ok (w', out, seen)) :
    w₀.Tried (clients.length + size) (clients ++ out.connected) out.refusals w' := by
  obtain ⟨hattempted, hfailed⟩ := connectBatch_books h.noBatch hc
  obtain ⟨-, -, -, -, -, -, hquiet⟩ := connectBatch_gathers h.noBatch hc
  have hgoes := connectBatch_goes h.noBatch hc
  obtain ⟨latencies, hlatencies, hjoins⟩ := h.joins
  refine ⟨hquiet, ?_, ?_, fun c hc => ?_, ?_, fun c hc => ?_, ?_, ?_⟩
  · rw [hattempted, h.attempted, List.append_assoc, range_append]
  · rw [List.length_append, Nat.add_assoc, hgoes.count]
  · rcases List.mem_append.1 hc with hc | hc
    · exact Nat.lt_add_right _ (h.id_lt c hc)
    · exact (hgoes.fresh c hc).2.2
  · rw [List.map_append]
    refine List.pairwise_append.2 ⟨h.increasing, hgoes.increasing, fun m hm n hn => ?_⟩
    obtain ⟨c, hc, rfl⟩ := List.mem_map.1 hm
    obtain ⟨d, hd, rfl⟩ := List.mem_map.1 hn
    exact (h.id_lt c hc).trans_le (hgoes.fresh d hd).2.1
  · rcases List.mem_append.1 hc with hc | hc
    · exact h.connected c hc
    · exact (hgoes.fresh c hc).1
  · rw [hfailed, h.failedAttempts, List.append_nil]
  · refine ⟨latencies ++ (List.range size).filterMap fun i =>
      (w.member set.options clients.length i).joined?.map Prod.snd, ?_, ?_⟩
    · rw [List.length_append, List.length_append, hlatencies, hgoes.connected,
        List.length_filterMap_eq_countP, List.length_filterMap_eq_countP]
      simp only [Option.isSome_map]
    · rw [← List.append_assoc]
      exact hgoes.joins.trans (hjoins.append_right _)

end Tried

/-! ## The way a pool grows -/

/-- A pool grows from `pool` to `pool'`, and these batches are issued meanwhile. -/
inductive Grows (set : Setting) (fuel target batch : Nat) :
    PoolOutcome → World → List Issue → World → PoolOutcome → Prop
  | full {pool : PoolOutcome} {w : World} : target ≤ pool.clients.length →
      Grows set fuel target batch pool w [] w pool
  | stopped {pool : PoolOutcome} {w : World} : pool.clients.length < target → w.stopped = true →
      Grows set fuel target batch pool w [] w pool
  | failed {pool : PoolOutcome} {w w' : World} {size : Nat} {out : BatchOutcome}
      {seen : Option Failure} {e : ClientError} {rest : List ClientError} :
      pool.clients.length < target → size = min (max batch 1) (target - pool.clients.length) →
      w.connectBatch set fuel pool.clients.length size false = .ok (w', out, seen) →
      out.refusals = e :: rest →
      Grows set fuel target batch pool w [⟨w, pool.clients.length, size⟩] w'
        { clients := pool.clients ++ out.connected, failure := some e }
  | next {pool pool' : PoolOutcome} {w w₁ w' : World} {size : Nat} {out : BatchOutcome}
      {seen : Option Failure} {issues : List Issue} :
      pool.clients.length < target → size = min (max batch 1) (target - pool.clients.length) →
      w.connectBatch set fuel pool.clients.length size false = .ok (w₁, out, seen) →
      out.refusals = [] →
      Grows set fuel target batch { pool with clients := pool.clients ++ out.connected } w₁ issues
        w' pool' →
      Grows set fuel target batch pool w (⟨w, pool.clients.length, size⟩ :: issues) w' pool'

variable {target batch batches : Nat} {pool pool' : PoolOutcome} {issues : List Issue}

/-- **A pool grows batch by batch**, and there are batches enough: each one without a failure adds a
client at least. -/
theorem growPool_grows (hq : w.NoBatch) (henough : target ≤ pool.clients.length + batches)
    (h : growPool set fuel target batch batches pool w = .ok (w', pool')) :
    Grows set fuel target batch pool w (poolIssues set fuel target batch batches pool w) w'
      pool' := by
  induction batches generalizing pool w with
  | zero =>
    cases h
    exact .full henough
  | succ batches ih =>
    rw [growPool] at h
    rw [poolIssues]
    dsimp only at h ⊢
    by_cases hfull : target ≤ pool.clients.length
    · rw [if_pos hfull] at h ⊢
      cases h
      exact .full hfull
    rw [if_neg hfull] at h ⊢
    have hroom := Nat.lt_of_not_le hfull
    by_cases hstopped : w.stopped = true
    · rw [if_pos hstopped] at h ⊢
      cases h
      exact .stopped hroom hstopped
    rw [if_neg hstopped] at h ⊢
    rcases hc : w.connectBatch set fuel pool.clients.length
      (min (max batch 1) (target - pool.clients.length)) false with e | ⟨w₁, out, seen⟩
    · simp only [hc] at h
      cases h
    simp only [hc] at h ⊢
    rcases hr : out.refusals with _ | ⟨e, rest⟩
    · simp only [hr] at h ⊢
      obtain ⟨-, -, -, -, hcount, -, hquiet⟩ := connectBatch_gathers hq hc
      refine .next hroom rfl hc hr (ih hquiet ?_ h)
      rw [hr] at hcount
      dsimp only
      rw [List.length_append]
      have hadds : out.connected.length = min (max batch 1) (target - pool.clients.length) := hcount
      omega
    · simp only [hr] at h ⊢
      cases h
      exact .failed hroom rfl hc hr

/-- Only the last of these batches had members that are not in the pool, and it had one. -/
def FailsLast (issues : List Issue) (clients : List Client) : Prop :=
  ∃ before last, issues = before ++ [last] ∧
    (∀ x ∈ before, ∀ n ∈ x.ids, n ∈ clients.map Client.id) ∧
    ∃ n ∈ last.ids, n ∉ clients.map Client.id

/-- A pool as far as it could be established since `w`, by these batches. -/
structure Established (target batch : Nat) (issues : List Issue) (w w' : World) (pool : PoolOutcome)
    (errors : List ClientError) : Prop where
  tried : w.Tried (pool.clients.length + errors.length) pool.clients errors w'
  le_target : pool.clients.length + errors.length ≤ target
  issued : issues.flatMap Issue.ids = List.range (pool.clients.length + errors.length)
  failure : pool.failure = errors.head?
  whole : errors = [] → pool.clients.length = target ∨
    max batch 1 ∣ pool.clients.length ∧ w'.stopped = true
  failsLast : errors ≠ [] → FailsLast issues pool.clients

/-- **However a pool grows** from one that has lost nobody, it is established so. -/
theorem Grows.established (h : Grows set fuel target batch pool w issues w' pool')
    (before : List Issue) (htried : w₀.Tried pool.clients.length pool.clients [] w)
    (hnone : pool.failure = none) (hle : pool.clients.length ≤ target)
    (hwhole : pool.clients.length = target ∨ max batch 1 ∣ pool.clients.length)
    (hbefore : before.flatMap Issue.ids = List.range pool.clients.length) :
    ∃ errors, Established target batch (before ++ issues) w₀ w' pool' errors := by
  induction h generalizing before with
  | full hfull =>
    rw [List.append_nil]
    exact ⟨[], htried, hle, hbefore, hnone, fun _ => .inl (Nat.le_antisymm hle hfull),
      fun hne => (hne rfl).elim⟩
  | stopped hroom hstopped =>
    rw [List.append_nil]
    exact ⟨[], htried, hle, hbefore, hnone,
      fun _ => .inr ⟨hwhole.resolve_left (Nat.ne_of_lt hroom), hstopped⟩, fun hne => (hne rfl).elim⟩
  | @failed pool w w' size out seen e rest hroom hsize hc hr =>
    have hbatch := htried.batch hc
    have hids : (before ++ [(⟨w, pool.clients.length, size⟩ : Issue)]).flatMap Issue.ids =
        List.range (pool.clients.length + size) := by
      rw [List.flatMap_append, hbefore, List.flatMap_singleton]
      exact range_append ..
    have hold : ∀ n < pool.clients.length, n ∈ (pool.clients ++ out.connected).map Client.id := by
      intro n hn
      rw [List.map_append, htried.ids]
      exact List.mem_append_left _ (List.mem_range.2 hn)
    refine ⟨out.refusals, hbatch.count ▸ hbatch, ?_, ?_, ?_, fun hnil => ?_, fun hne => ?_⟩
    · rw [hbatch.count]
      omega
    · rw [hbatch.count]
      exact hids
    · rw [hr]
      rfl
    · rw [hr] at hnil
      cases hnil
    · refine ⟨before, _, rfl, fun x hx n hn => hold n ?_, ?_⟩
      · rw [← List.mem_range, ← hbefore]
        exact List.mem_flatMap.2 ⟨x, hx, hn⟩
      · obtain ⟨n, hlt, hmissing⟩ := hbatch.exists_missing hne
        refine ⟨n, List.mem_range'_1.2 ⟨Nat.le_of_not_lt fun hn => ?_, hlt⟩, hmissing⟩
        exact hmissing (hold n hn)
  | @next pool pool' w w₁ w' size out seen issues hroom hsize hc hr _ ih =>
    have hbatch := htried.batch hc
    have hlength : (pool.clients ++ out.connected).length = pool.clients.length + size := by
      rw [← hbatch.count, hr]
      rfl
    rw [hr, ← hlength] at hbatch
    rw [List.append_cons]
    refine ih _ hbatch hnone ?_ ?_ ?_
    · dsimp only
      omega
    · dsimp only
      rw [hlength]
      have hdvd := hwhole.resolve_left (Nat.ne_of_lt hroom)
      by_cases hshort : target - pool.clients.length ≤ max batch 1
      · exact .inl (by omega)
      · have hfull : size = max batch 1 := by omega
        rw [hfull]
        exact .inr (Nat.dvd_add_self_right.2 hdvd)
    · rw [List.flatMap_append, hbefore, List.flatMap_singleton]
      dsimp only
      rw [hlength]
      exact range_append ..

/-! ## A pool comes about -/

/-- **While no loop runs a pool is established at some time**, if the attempts that are made all come
to an end. -/
theorem growPool_alone_returns (hq : w.NoBatch) (hw : w.workers = []) (enough : Nat)
    (hends : ∀ fuel, enough ≤ fuel → ∀ x ∈ poolIssues set fuel target batch batches pool w,
      ∀ i < x.size, (x.world.alone set.options x.first i).ending ≠ none) :
    Returns fun fuel => growPool set fuel target batch batches pool w := by
  induction batches generalizing pool w enough with
  | zero => exact .of_ok fun _ => rfl
  | succ batches ih =>
    by_cases hfull : target ≤ pool.clients.length
    · refine .of_ok (x := (w, pool)) fun fuel => ?_
      rw [growPool]
      exact if_pos hfull
    cases hstopped : w.stopped with
    | true =>
      refine .of_ok (x := (w, pool)) fun fuel => ?_
      simp only [growPool, if_neg hfull, hstopped, if_true]
    | false =>
      let size := min (max batch 1) (target - pool.clients.length)
      have hfirst : (⟨w, pool.clients.length, size⟩ : Issue) ∈
          poolIssues set enough target batch (batches + 1) pool w := by
        rw [poolIssues]
        simp [hfull, hstopped, size]
      have hmembers : ∀ i < size, (w.alone set.options pool.clients.length i).ending ≠ none :=
        hends enough (Nat.le_refl _) _ hfirst
      refine (connectBatch_alone_returns hq hw false hmembers).follow ?_
      rintro fuel ⟨w₁, out, seen⟩ hc
      rcases hr : out.refusals with _ | ⟨e, rest⟩
      · obtain ⟨-, -, -, -, -, -, hquiet⟩ := connectBatch_gathers hq hc
        refine ⟨_, ih hquiet (connectBatch_idle hw hc).workers (max enough fuel) ?_,
          fun m hm => growPool_goes_on hfull hstopped hm hr⟩
        -- with more fuel the first batch comes out the same, and the others follow it
        intro more hmore x hx
        refine hends more (by omega) x ?_
        have hsame := connectBatch_mono (Nat.le_trans (Nat.le_max_right ..) hmore) hc
        rw [poolIssues]
        dsimp only
        rw [if_neg hfull, if_neg (by simp [hstopped]), hsame]
        simp only [hr]
        exact List.mem_cons_of_mem _ hx
      · exact ⟨_, .of_ok fun _ => rfl, fun m hm => growPool_refused hfull hstopped hm hr⟩

end World

/-- **Establishing a pool.** Whatever the target, the size of a batch and the scripts, and whenever
interrupts arrive: the pool consists of clients that have connected and counted nothing, with
increasing ids below the target; each id below some bound was attempted once and no other, and the
bound is at most the target; who was attempted is in the pool, with one join sample, or has failed.
Without a failure the ids of the pool are those from 0 on, up to the target or, if the stop latch was
found set, up to a multiple of the batch size. With a failure, which is the first one there was, only
the last batch issued had members that failed, and all members of the batches before it are in the
pool. If all attempts that are made come to an end then so does establishing the pool. -/
theorem establishPool_contract (set : Setting) (target batch : Nat) {w : World} (hq : w.NoBatch) :
    (∀ fuel w' pool, w.establishPool set fuel target batch = .ok (w', pool) →
      (∃ errors, World.Established target batch (World.poolIssues set fuel target batch target {} w)
        w w' pool errors) ∧
      (∀ c ∈ pool.clients, c.id < target) ∧
      (pool.failure = none → ∃ m, pool.clients.map Client.id = List.range m ∧
        (m = target ∨ max batch 1 ∣ m)) ∧
      (pool.failure = none → w'.stopped = false →
        pool.clients.map Client.id = List.range target)) ∧
    (w.workers = [] →
      (∀ fuel, ∀ x ∈ World.poolIssues set fuel target batch target {} w, ∀ i < x.size,
        (x.world.alone set.options x.first i).ending ≠ none) →
      Returns fun fuel => w.establishPool set fuel target batch) := by
  refine ⟨fun fuel w' pool h => ?_, fun hw hends => ?_⟩
  · have hgrows := World.growPool_grows hq (Nat.le_of_eq (Nat.zero_add _).symm) h
    obtain ⟨errors, hall⟩ := hgrows.established [] (.start hq) rfl (Nat.zero_le _)
      (.inr (Nat.dvd_zero _)) rfl
    have hclean : pool.failure = none → errors = [] := by
      rw [hall.failure]
      exact List.head?_eq_none_iff.1
    have hids : pool.failure = none →
        pool.clients.map Client.id = List.range pool.clients.length := by
      intro hnone
      have htried := hall.tried
      rw [hclean hnone] at htried
      exact htried.ids
    refine ⟨⟨errors, hall⟩, fun c hc => (hall.tried.id_lt c hc).trans_le hall.le_target,
      fun hnone => ⟨_, hids hnone, (hall.whole (hclean hnone)).imp_right And.left⟩,
      fun hnone hstopped => ?_⟩
    rcases hall.whole (hclean hnone) with hfull | ⟨-, hlatched⟩
    · rw [hids hnone, hfull]
    · rw [hstopped] at hlatched
      cases hlatched
  · exact World.growPool_alone_returns hq hw 0 fun fuel _ => hends fuel

/-- A pool of four, of which the third client is refused. A batch size of 0 counts as 1. -/
theorem establishPool_contract_four :
    let set : Setting :=
      { options := { connectTimeout := some 9 }, source := SplitMix.source #[] 0 }
    let w : World :=
      { network := { peers := [{}, { connectDelay := 7 }, { refuse := some .writeZero }] } }
    ∃ w' pool, w.establishPool set 9 4 0 = .ok (w', pool) ∧
      pool.clients.map Client.id = [0, 1] ∧ pool.failure = some (.connect .writeZero) ∧
      (∃ errors, World.Established 4 0 (World.poolIssues set 9 4 0 4 {} w) w w' pool errors) ∧
      Returns fun fuel => w.establishPool set fuel 4 0 := by
  intro set w
  have hq : w.NoBatch := ⟨rfl, rfl, rfl⟩
  obtain ⟨hcontract, hreturns⟩ := establishPool_contract set 4 0 hq
  have hruns : ((w.establishPool set 9 4 0).toOption.any fun x =>
      x.2.clients.map Client.id = [0, 1] ∧ x.2.failure = some (.connect .writeZero)) = true := by
    decide +kernel
  obtain ⟨⟨w', pool⟩, h, hpool⟩ := toOption_any.1 hruns
  obtain ⟨hids, hfailure⟩ := of_decide_eq_true hpool
  refine ⟨w', pool, h, hids, hfailure, (hcontract 9 w' pool h).1, hreturns rfl ?_⟩
  intro fuel x _ i _
  generalize hp : x.world.network.peer (x.world.network.connections.length + i) = p
  have hrest : ({ rest := p } : Network).peer 0 = p := rfl
  simp only [World.alone, Client.alone, Client.connect, Client.establish, hp, hrest, set, ne_eq,
    not_true_eq_false, if_false, List.length_nil]
  by_cases hlate : (p.never || 9 < p.connectDelay) = true
  · simp [hlate]
  · cases hrefuse : p.refuse <;> cases hoption : p.optionError <;> simp [hlate]

end EchoLoad
