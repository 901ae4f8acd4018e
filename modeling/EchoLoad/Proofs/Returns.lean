import EchoLoad.Proofs.WaitsEnd
import EchoLoad.Proofs.Quiescent
/-!
Every wait of a controller comes to a result where nothing takes for ever: a batch is bounded by
its attempts, a sleep by its alarm, and loops that are waited for by the run flag, by their own
limits or by the deadline that clears the flag. Main statements: `connectBatch_returns`,
`drain_returns`, `joinAll_returns` and `closeAll_returns`.
-/

namespace EchoLoad.World

variable {set : Setting} {plans : EchoPlan → Prop} {w w' : World}

theorem InternalStep.inactive (hs : InternalStep set w w') (h : w.active = false) :
    w'.active = false := by
  cases hs with
  | signal hsignal =>
    rw [interrupted_eq hsignal, h]
    rfl
  | _ => exact h

section

variable (ho : set.options.Timed) (hplans : ∀ plan, plans plan → ∃ n, plan.payload.Allows n)

include ho hplans

/-! ## Sleeping and pausing -/

theorem sleep_returns (h : w.WaitsEnd plans) (d : Duration) :
    Returns fun fuel => w.sleep set fuel d := by
  refine Returns.map ?_ _
  refine attend_returns (sleeping (w.now + d)) (I := fun _ _ => True) ho hplans
    (fun _ _ _ => rfl) (fun _ _ _ _ => trivial) (fun _ _ _ _ _ => trivial) ?_ ?_ trivial h
  · exact fun _ _ _ _ _ hover => ⟨_, _, alarm_mem_moves rfl, hover.alarm _ rfl⟩
  · intro _ w w' b _ _ hr
    cases hr with
    | alarm => trivial
    | mail hm => cases hm
    | joined _ _ hj => cases hj
    | ended he => cases he

theorem pause_returns (h : w.WaitsEnd plans) (d : Duration) :
    Returns fun fuel => w.pause set fuel d := by
  refine attend_returns (pausing (w.now + d)) (I := fun _ _ => True) ho hplans
    (fun _ _ _ => rfl) (fun _ _ _ _ => trivial) (fun _ _ _ _ _ => trivial) ?_ ?_ trivial h
  · exact fun _ _ _ _ _ hover => ⟨_, _, alarm_mem_moves rfl, hover.alarm _ rfl⟩
  · intro _ w w' b _ _ hr
    cases hr with
    | alarm | mail => trivial
    | joined _ _ hj => cases hj
    | ended he => cases he

/-! ## Loops that are waited for -/

/-- **Loops are waited for after the flag is cleared.** Each ends after its round under way. -/
theorem drain_returns (h : w.WaitsEnd plans) (hactive : w.active = false) :
    Returns fun fuel => w.drain set fuel := by
  refine attend_returns draining (I := fun _ w => w.active = false) ho hplans
    (fun _ _ _ => rfl) (fun _ _ _ h => h) (fun _ _ _ h hs => hs.inactive h) ?_ ?_ hactive h
  · intro horizon _ w hactive hw hover
    rcases hworkers : w.workers with _ | ⟨k, workers⟩
    · exact ⟨w.now, .ended, ended_mem_moves (by simp [draining, hworkers]), hover.now⟩
    · exact hover.exists_move hw (k := k) (by simp [hworkers]) (.inl hactive) rfl
  · intro clients w w' b hactive hw hr
    cases hr with
    | alarm ha => cases ha
    | mail hm => cases hm
    | ended => trivial
    | joined hk hs => exact ⟨hactive, (waitsEnd_kept ho).lasting.join hw _, .join hk hs rfl⟩

/-- **A crew is waited for**, with a deadline or with limits of its own. -/
theorem joinAll_returns (h : w.WaitsEnd plans) {limit : Option Duration}
    (hlimit : limit ≠ none ∨ ∀ plan, plans plan → plan.rounds ≠ none) :
    Returns fun fuel => w.joinAll set fuel limit := by
  let Bounded (c : Crew) (w : World) : Prop :=
    c.deadline ≠ none ∨ w.active = false ∨ ∀ plan, plans plan → plan.rounds ≠ none
  have hwait : Returns fun fuel =>
      w.attend set joining fuel { deadline := limit.map (w.now + ·) } := by
    refine attend_returns joining (I := Bounded) ho hplans (fun _ _ _ => rfl)
      (fun _ _ _ h => h) (fun _ _ _ h hs => h.imp_right (Or.imp_left hs.inactive)) ?_ ?_ ?_ h
    · intro horizon c w hbounded hw hover
      rcases hdeadline : c.deadline with _ | t
      · rcases hworkers : w.workers with _ | ⟨k, workers⟩
        · exact ⟨w.now, .ended, ended_mem_moves (by simp [joining, hworkers]), hover.now⟩
        · have hk : k ∈ w.workers := by simp [hworkers]
          have hawaited : w.active = false ∨ k.IsLimited :=
            (hbounded.resolve_left (not_not_intro hdeadline)).imp_right
              fun hall => hall k.plan (hw.plans k hk)
          exact hover.exists_move hw hk hawaited rfl
      · exact ⟨t, _, alarm_mem_moves hdeadline, hover.alarm t hdeadline⟩
    · intro c w w' b hbounded hw hr
      cases hr with
      | ended => trivial
      | alarm ha =>
        exact ⟨.inr (.inl rfl), (waitsEnd_kept ho).lasting.cancel hw, (Nearer.alarm ha rfl).cancel⟩
      | mail _ hf =>
        exact ⟨.inr (.inl rfl),
          (waitsEnd_kept ho).lasting.cancel ((waitsEnd_kept ho).lasting.failures hw _),
          Nearer.cancel (.mail hf rfl)⟩
      | joined hk hs => exact ⟨hbounded, (waitsEnd_kept ho).lasting.join hw _, .join hk hs rfl⟩
    · exact hlimit.imp (fun hne => by simpa using hne) .inr
  refine hwait.follow fun fuel x hok => ⟨fun _ => w.joinAll set fuel limit, ?_, fun m hm => ?_⟩
  · have hjoin : ∃ y, w.joinAll set fuel limit = .ok y := by
      rw [joinAll, hok]
      dsimp only
      split <;> exact ⟨_, rfl⟩
    exact hjoin.elim fun y hy => .of_ok fun _ => hy
  · rw [joinAll, joinAll, hok, hm]

/-! ## Pools -/

/-- **A batch that connects.** Every attempt ends. -/
theorem connectBatch_returns (h : w.WaitsEnd plans) (first size : Nat) (watchful : Bool)
    (hstopped : w.stopped = false) :
    Returns fun fuel => w.connectBatch set fuel first size watchful := by
  have hdialed : (w.dialBatch set first size).WaitsEnd plans :=
    dialBatch_keeps (waitsEnd_kept ho) first size hstopped h
  refine Returns.map ?_ _
  refine attend_returns (connecting watchful) (I := fun _ _ => True) ho hplans
    (fun _ _ _ => rfl) (fun _ _ _ _ => trivial) (fun _ _ _ _ _ => trivial) ?_ ?_ trivial hdialed
  · intro horizon seen w _ hw hover
    rcases hd : w.dials with _ | ⟨d, dials⟩
    · exact ⟨w.now, .ended, ended_mem_moves (by simp [connecting, hd]), hover.now⟩
    · have hmem : d ∈ w.dials := by simp [hd]
      have hi : w.dials[0]? = some d := by simp [hd]
      obtain ⟨⟨t, r⟩, he⟩ := Option.ne_none_iff_exists'.1 (hw.dials d hmem)
      exact ⟨t, _, dial_mem_moves hi he, hover.dials d hmem t r he⟩
  · intro seen w w' b _ hw hr
    cases hr with
    | alarm ha => cases ha
    | joined _ _ hj => cases hj
    | ended => trivial
    | mail _ hf =>
      exact ⟨trivial, (waitsEnd_kept ho).lasting.cancel ((waitsEnd_kept ho).lasting.failures hw _),
        Nearer.cancel (.mail hf rfl)⟩

/-- **A pool is grown** as far as it can be. -/
theorem growPool_returns (h : w.WaitsEnd plans) (target batch batches : Nat) (pool : PoolOutcome) :
    Returns fun fuel => growPool set fuel target batch batches pool w := by
  induction batches generalizing pool w with
  | zero => exact .of_ok fun _ => rfl
  | succ batches ih =>
    by_cases hfull : target ≤ pool.clients.length
    · refine .of_ok (x := (w, pool)) fun fuel => ?_
      rw [growPool]
      exact if_pos hfull
    cases hstopped : w.stopped with
    | true =>
      refine .of_ok (x := (w, pool)) fun fuel => ?_
      simp only [growPool, if_neg hfull, hstopped, if_true]
    | false =>
      refine (connectBatch_returns ho hplans h pool.clients.length
        (min (max batch 1) (target - pool.clients.length)) false hstopped).follow ?_
      rintro fuel ⟨w1, out, seen⟩ hok
      obtain ⟨hw1, -⟩ := (connectBatch_leaves (C := fun _ => True) (waitsEnd_kept ho)
        (fun _ _ _ _ => trivial) _ _ _ false hstopped h).ok hok
      rcases hrefusals : out.refusals with _ | ⟨e, rest⟩
      · exact ⟨_, ih hw1 { pool with clients := pool.clients ++ out.connected },
          fun m hm => growPool_goes_on hfull hstopped hm hrefusals⟩
      · exact ⟨_, .of_ok fun _ => rfl, fun m hm => growPool_refused hfull hstopped hm hrefusals⟩

/-- **Clients are closed**, with pauses or without. -/
theorem closeAll_returns (h : w.WaitsEnd plans) (batch : Nat) (pause : Duration)
    (clients : List Client) : Returns fun fuel => w.closeAll set fuel batch pause clients :=
  closeAll_ends (fun _ c h => h.close c) (fun _ h => sleep_returns ho hplans h pause)
    (fun _ _ _ h hs => (sleep_leaves (waitsEnd_kept ho).lasting h).ok hs) h batch clients

end

end EchoLoad.World
