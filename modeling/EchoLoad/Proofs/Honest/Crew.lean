import EchoLoad.Proofs.Honest.Waits
import EchoLoad.Proofs.WaitsEnd
/-!
A crew of honest peers that take their time. Every loop begins its first round before the clock moves
on, so before any deadline, and a round that has begun is echoed. Whoever comes back has therefore done
a round at least, unless there was no round to do. And as no echo is there at once, the crew does come
back, also if only a deadline ends its loops. Main statement: `joinAll_eachEchoes`.
-/

namespace EchoLoad

namespace Worker

theorem begun_of_ready {k : Worker} (hs : k.stage = .ready) : k.begun = k.completed := by
  simp only [begun, hs]

theorem begun_done (k : Worker) : ({ k with stage := .done } : Worker).begun = k.completed := rfl

end Worker

namespace World

variable {set : Setting} {peer : Nat → Peer} {due : Client → Nat} {held : List Client}
  {w w' : World} {plan : EchoPlan} {size pool : Nat} {base : World} {c : Crew}

/-- Each loop has begun a round, or is to begin its first one now, before the deadline. Whoever is
back has done one. -/
structure AllBegin (c : Crew) (w : World) : Prop where
  loops : ∀ k ∈ w.workers, 1 ≤ k.begun ∨
    k.stage = .ready ∧ w.active = true ∧ ∀ t, c.deadline = some t → w.now < t
  back : ∀ x ∈ c.clients, 1 ≤ x.rounds

namespace AllBegin

theorem set_worker (h : AllBegin c w) {i : Nat} (k' : Worker) (hk' : 1 ≤ k'.begun)
    (hworkers : w'.workers = w.workers.set i k') (hactive : w'.active = w.active)
    (hnow : w'.now = w.now) : AllBegin c w' := by
  refine ⟨?_, h.back⟩
  rw [hworkers, hactive, hnow]
  exact forall_mem_set h.loops (.inl hk')

/-- **No loop ends before its first round**, as long as no round fails and nothing interrupts. -/
theorem internalStep (h : AllBegin c w) (hs : InternalStep set w w') (hsignals : w.signals = [])
    (hanswered : ∀ k ∈ w.workers, k.Answered) (hplan : ∀ k ∈ w.workers, k.plan.rounds ≠ some 0) :
    AllBegin c w' := by
  cases hs with
  | signal hsignal => simp [hsignals] at hsignal
  | arrived | declined => exact ⟨h.loops, h.back⟩
  | @echoed i k => exact h.set_worker k.advance (Nat.le_add_left 1 k.completed) rfl rfl rfl
  | broken hk hb =>
    obtain ⟨t, latency, he⟩ := (hanswered _ (List.mem_of_getElem? hk)).round _ hb
    cases he
  | @start i length k source hk =>
    refine h.set_worker _ ?_ rfl rfl rfl
    exact Nat.le_add_left 1 k.completed
  | @retire i k hk hr hstop =>
    have hmem := List.mem_of_getElem? hk
    refine h.set_worker { k with stage := .done } ?_ rfl rfl rfl
    rw [Worker.begun_done]
    rcases h.loops k hmem with hbegun | ⟨-, hactive, -⟩
    · rwa [Worker.begun_of_ready hr] at hbegun
    · -- the flag is set, so the budget is spent, and it was not empty
      obtain ⟨n, hn, hle⟩ : ∃ n, k.plan.rounds = some n ∧ n ≤ k.completed := by
        rw [hactive, Bool.true_and, Worker.hasBudget] at hstop
        split at hstop
        · next n hn => exact ⟨n, hn, by simpa using hstop⟩
        · cases hstop
      have hne := hplan k hmem
      rw [hn] at hne
      have : n ≠ 0 := fun hzero => hne (congrArg some hzero)
      omega

end AllBegin

/-- An honest crew at work. -/
structure HonestCrew (set : Setting) (peer : Nat → Peer) (due : Client → Nat) (held : List Client)
    (plan : EchoPlan) (size pool : Nat) (base : World) (c : Crew) (w : World) : Prop where
  first : c.first = none
  custody : Custody set.options (held ++ c.clients) w
  answers : w.Answering set.options peer due (held ++ c.clients)
  repliesLater : w.network.RepliesLater
  dials : w.dials = []
  tally : ∃ es, Tally.Running plan size pool base c.clients es w
  /-- Only loops without a limit have a deadline. -/
  limit : c.deadline ≠ none → plan.rounds = none
  /-- Its loops will end. -/
  bounded : w.active = false ∨ plan.rounds ≠ none ∨ c.deadline ≠ none
  allBegin : plan.rounds ≠ some 0 → AllBegin c w

namespace HonestCrew

theorem follows (h : HonestCrew set peer due held plan size pool base c w) :
    ∀ k ∈ w.workers, k.plan = plan := by
  obtain ⟨es, ht⟩ := h.tally
  exact fun k hk => (ht.workers k hk).follows

theorem waitsEnd (h : HonestCrew set peer due held plan size pool base c w) :
    w.WaitsEnd (· = plan) := by
  refine ⟨h.repliesLater, by simp [h.dials], fun k hk hb => ?_, h.follows⟩
  obtain ⟨t, latency, he⟩ := (h.answers.workers k hk).round none hb
  cases he

theorem internalStep (hdue : CountsRounds due) (hplan : plan.payload = .fixed size)
    (h : HonestCrew set peer due held plan size pool base c w) (hs : InternalStep set w w') :
    HonestCrew set peer due held plan size pool base c w' := by
  obtain ⟨es, ht⟩ := h.tally
  refine ⟨h.first, hs.custody h.custody, h.answers.internalStep hdue h.custody hs,
    hs.repliesLater h.repliesLater,
    hs.dials_nil h.dials, ht.internalStep hplan h.dials hs, h.limit, ?_, fun hzero => ?_⟩
  · rw [hs.active_eq h.answers.signals]
    exact h.bounded
  · refine (h.allBegin hzero).internalStep hs h.answers.signals h.answers.workers fun k hk => ?_
    rwa [h.follows k hk]

/-- **Time may pass** until the next thing happens. If a loop is still to begin its first round then
something happens now. -/
theorem exists_move (h : HonestCrew set peer due held plan size pool base c w) {horizon : Duration}
    (hover : OverBy horizon (joining.waiting c) w) :
    ∃ t₁ m₁, (t₁, m₁) ∈ w.moves (joining.waiting c) ∧ t₁ ≤ horizon ∧
      ∀ t, w.now ≤ t → t ≤ max w.now t₁ →
        HonestCrew set peer due held plan size pool base c (w.tick t) := by
  obtain ⟨es, ht⟩ := h.tally
  have htick : ∀ t, (plan.rounds ≠ some 0 → AllBegin c (w.tick t)) →
      HonestCrew set peer due held plan size pool base c (w.tick t) := fun t heager =>
    ⟨h.first, h.custody, h.answers.tick t, h.repliesLater, h.dials, ⟨es, ht.tick t⟩, h.limit,
      h.bounded,
      heager⟩
  by_cases hlate : plan.rounds ≠ some 0 ∧ ∃ k ∈ w.workers, ¬ 1 ≤ k.begun
  · obtain ⟨hzero, k, hk, hbegun⟩ := hlate
    obtain ⟨hready, -, -⟩ := ((h.allBegin hzero).loops k hk).resolve_left hbegun
    obtain ⟨t₁, m₁, hm, hle⟩ := exists_move_of_ready (q := joining.waiting c) hk hready
    refine ⟨t₁, m₁, hm, Nat.le_trans hle hover.now, fun t hnow ht₁ => htick t fun hzero => ?_⟩
    obtain rfl : t = w.now := Nat.le_antisymm (Nat.max_eq_left hle ▸ ht₁) hnow
    exact ⟨(h.allBegin hzero).loops, (h.allBegin hzero).back⟩
  · have hbegun : ∀ t, plan.rounds ≠ some 0 → AllBegin c (w.tick t) := fun t hzero =>
      ⟨fun k hk => .inl (by_contra fun hnot => hlate ⟨hzero, k, hk, hnot⟩),
        (h.allBegin hzero).back⟩
    obtain ⟨t₁, m₁, hm, hle⟩ : ∃ t₁ m₁, (t₁, m₁) ∈ w.moves (joining.waiting c) ∧
        t₁ ≤ horizon := by
      rcases hdeadline : c.deadline with _ | t
      · rcases hworkers : w.workers with _ | ⟨k, workers⟩
        · exact ⟨w.now, .ended, ended_mem_moves (by simp [joining, hworkers]), hover.now⟩
        · have hk : k ∈ w.workers := by simp [hworkers]
          have hawaited : w.active = false ∨ k.IsLimited := by
            rcases h.bounded with hactive | hlimited | hne
            · exact .inl hactive
            · exact .inr (by rwa [Worker.IsLimited, h.follows k hk])
            · exact absurd hdeadline hne
          exact hover.exists_move h.waitsEnd hk hawaited rfl
      · exact ⟨t, _, alarm_mem_moves hdeadline, hover.alarm t hdeadline⟩
    exact ⟨t₁, m₁, hm, hle, fun t _ _ => htick t (hbegun t)⟩

theorem alarm (h : HonestCrew set peer due held plan size pool base c w) {t : Duration}
    (hdeadline : c.deadline = some t) (ht : t ≤ w.now) :
    HonestCrew set peer due held plan size pool base { c with deadline := none } w.cancel := by
  obtain ⟨es, htally⟩ := h.tally
  have hnone : plan.rounds = none := h.limit (by simp [hdeadline])
  refine ⟨h.first, h.custody, ?_, h.repliesLater, h.dials, ⟨es, htally.cancel w.failures (.inl hnone)⟩,
    fun hne => (hne rfl).elim, .inl rfl, fun hzero => ⟨fun k hk => ?_, (h.allBegin hzero).back⟩⟩
  · exact h.answers.congr rfl rfl rfl rfl rfl (List.Subset.refl _) h.answers.workers
      (List.Subset.refl _)
  · refine ((h.allBegin hzero).loops k hk).imp_right fun ⟨_, _, hearly⟩ => ?_
    exact absurd (hearly t hdeadline) (Nat.not_lt.2 ht)

theorem join (h : HonestCrew set peer due held plan size pool base c w) {i : Nat} {k : Worker}
    (hk : w.workers[i]? = some k) (hs : k.stage = .done) :
    HonestCrew set peer due held plan size pool base { c with clients := c.clients ++ [k.client] }
      { w with workers := w.workers.eraseIdx i } := by
  obtain ⟨es, ht⟩ := h.tally
  have hcustody := h.custody.join hk hs
  have hanswers := h.answers.join hk
  rw [List.append_assoc] at hcustody hanswers
  refine ⟨h.first, hcustody, hanswers, h.repliesLater, h.dials, ⟨es, ht.join hk hs⟩, h.limit,
    h.bounded,
    fun hzero => ⟨fun x hx => (h.allBegin hzero).loops x (List.eraseIdx_subset hx), fun x hx => ?_⟩⟩
  rcases List.mem_append.1 hx with hx | hx
  · exact (h.allBegin hzero).back x hx
  · have hmem := List.mem_of_getElem? hk
    have hbegun : 1 ≤ k.begun :=
      ((h.allBegin hzero).loops k hmem).resolve_right fun ⟨hready, _⟩ => by simp [hs] at hready
    rw [List.mem_singleton.1 hx, (ht.workers k hmem).rounds]
    simpa only [Worker.counted, Worker.begun, hs] using hbegun

end HonestCrew

/-- **A crew in an honest world whose peers take their time.** All its clients come back and no
failure was sent. If there was a round to do, each has done one. -/
theorem joinAll_eachEchoes {limit : Option Duration} (hdue : CountsRounds due)
    (hc : Custody set.options held w) (h : w.Answering set.options peer due held)
    (hdelays : w.network.RepliesLater) (ht : Tally.Running plan size pool base [] [] w)
    (hdials : w.dials = []) (hplan : plan.payload = .fixed size)
    (hlimit : limit ≠ none → plan.rounds = none) (hends : plan.rounds ≠ none ∨ limit ≠ none)
    (hpos : ∀ d, limit = some d → 0 < d)
    (hready : ∀ k ∈ w.workers, k.stage = .ready) (hactive : w.active = true) :
    ∃ w' clients, Settles (fun fuel => w.joinAll set fuel limit) (w', clients, none) ∧
      w'.Answering set.options peer due (held ++ clients) ∧
      (plan.rounds ≠ some 0 → ∀ c ∈ clients, 1 ≤ c.rounds) := by
  have hstart : HonestCrew set peer due held plan size pool base
      { deadline := limit.map (w.now + ·) } w := by
    refine ⟨rfl, by simpa using hc, by simpa using h, hdelays, hdials, ⟨[], ht⟩,
      fun hne => hlimit (by simpa using hne), .inr (hends.imp_right fun hne => by simpa using hne),
      fun _ => ⟨fun k hk => .inr ⟨hready k hk, hactive, fun t hdeadline => ?_⟩, by simp⟩⟩
    obtain ⟨d, hd, rfl⟩ := Option.map_eq_some_iff.1 hdeadline
    exact Nat.lt_add_of_pos_right (hpos d hd)
  have hallows : ∀ p : EchoPlan, p = plan → ∃ n, p.payload.Allows n := by
    rintro _ rfl
    exact ⟨size, by rw [hplan]; rfl⟩
  obtain ⟨w1, c, hwait, hw1⟩ : ∃ w1 c,
      Settles (fun fuel => w.attend set joining fuel { deadline := limit.map (w.now + ·) })
        (w1, c) ∧ HonestCrew set peer due held plan size pool base c w1 := by
    refine attend_nearer hallows (fun _ _ h => h.waitsEnd) (fun _ _ _ => rfl)
      (fun _ _ _ h hover => h.exists_move hover)
      (fun _ _ _ h hs => h.internalStep hdue hplan hs) ?_ hstart
    intro c w w' b h hr
    cases hr with
    | alarm ha ht => exact ⟨h.alarm ha ht, (Nearer.alarm ha rfl).cancel⟩
    | mail _ hf =>
      rw [h.answers.failures] at hf
      cases hf
    | joined hk hs => exact ⟨h.join hk hs, .join hk hs rfl⟩
    | ended => exact h
  refine ⟨w1, Client.sortById c.clients, ?_, ?_, fun hzero x hx => ?_⟩
  · obtain ⟨enough, hok⟩ := hwait
    refine ⟨enough, fun fuel hfuel => ?_⟩
    have hok := hok fuel hfuel
    dsimp only at hok ⊢
    simp only [joinAll, hok, hw1.first, hw1.answers.failures]
  · exact hw1.answers.perm ((Client.sortById_perm _).symm.append_left _)
  · exact (hw1.allBegin hzero).back x ((Client.sortById_perm _).mem_iff.1 hx)

end World

end EchoLoad
