import EchoLoad.Proofs.RunStep
import EchoLoad.Proofs.Payload
import EchoLoad.Proofs.Progress
import EchoLoad.Proofs.Readable
/-!
A world in which nothing takes for ever. What a wait can bring by some instant is ranked by three
numbers: how much there is to do that has no bound in time, how far the instant is, and how much can
happen before the clock moves on. Main statements: `attend_nearer` and `attend_returns`.
-/

namespace EchoLoad

/-! ## What a loop has to do -/

namespace Worker

/-- The rounds of a limited loop that are still to start, and its end. A loop without a limit goes
on only as long as the run flag is set. -/
def turnsLeft (k : Worker) : Nat :=
  match k.plan.rounds with
  | none => 0
  | some n =>
    match k.stage with
    | .ready => n - k.completed + 1
    | .busy _ => n - (k.completed + 1) + 1
    | .done => 1

/-- A bound for what the loop can do before the clock moves on, apart from the rounds for which a
reply is there to be read. -/
def movesNow (now : Duration) (k : Worker) : Nat :=
  match k.stage with
  | .ready => 4
  | .busy (some (t, .ok _)) => if t ≤ now then 5 else 3
  | .busy _ => 3
  | .done => 1

def IsLimited (k : Worker) : Prop := k.plan.rounds ≠ none

variable {k k' : Worker}

theorem turnsLeft_eq_zero (h : ¬ k.IsLimited) : k.turnsLeft = 0 := by
  simp [turnsLeft, Decidable.of_not_not h]

theorem turnsLeft_advance (k : Worker) {ending : Ending} (hs : k.stage = .busy ending) :
    k.advance.turnsLeft ≤ k.turnsLeft := by
  simp only [turnsLeft, advance, hs]
  split <;> exact Nat.le_refl _

theorem turnsLeft_done (k : Worker) :
    ({ k with stage := .done } : Worker).turnsLeft ≤ k.turnsLeft := by
  simp only [turnsLeft]
  split
  · exact Nat.le_refl _
  · split <;> omega

theorem turnsLeft_start {ending : Ending} (hs : k.stage = .ready)
    (hb : k.hasBudget = true) (hlimited : k.IsLimited) (hplan : k'.plan = k.plan)
    (hcompleted : k'.completed = k.completed) (hs' : k'.stage = .busy ending) :
    k'.turnsLeft < k.turnsLeft := by
  obtain ⟨n, hn⟩ := Option.ne_none_iff_exists'.1 hlimited
  have hlt : k.completed < n := by simpa [hasBudget, hn] using hb
  simp only [turnsLeft, hplan, hn, hs, hs', hcompleted]
  omega

/-- A round that starts weighs less than its loop at the top, unless its echo is there at once; and
such an echo uses a header up of what can be read. -/
theorem movesNow_start {now : Duration} {before after : Nat} {ending : Ending}
    (hs : k.stage = .ready) (hs' : k'.stage = .busy ending) (hle : after ≤ before)
    (hok : ∀ t latency, ending = some (t, .ok latency) → t ≤ now →
      after + Frame.headerLength ≤ before) :
    after + k'.movesNow now < before + k.movesNow now := by
  have hbefore : k.movesNow now = 4 := by simp [movesNow, hs]
  rw [hbefore]
  rcases ending with _ | ⟨t, e | latency⟩ <;> simp only [movesNow, hs']
  · omega
  · omega
  · split
    · next ht =>
      have hused : after + 4 ≤ before := hok t latency rfl ht
      omega
    · omega

end Worker

namespace World

variable {set : Setting} {plans : EchoPlan → Prop} {q q' : Waiting} {w w' : World}
  {horizon t : Duration}

/-! ## Peers that do not reply at once -/

theorem InternalStep.repliesLater (h : w.network.RepliesLater) (hs : InternalStep set w w') :
    w'.network.RepliesLater := by
  cases hs with
  | signal hsignal =>
    rw [interrupted_eq hsignal]
    exact h
  | start => exact (Client.echoRound_readable (o := set.options) h _ _ _).1
  | arrived | declined | echoed | broken | retire => exact h

theorem close_repliesLater (h : w.network.RepliesLater) (c : Client) :
    (w.close c).network.RepliesLater := by
  unfold World.close Client.close
  split
  · cases c.stream with
    | none => exact h
    | some n => exact h.modify n h.connections
  · exact h

theorem release_repliesLater (h : w.network.RepliesLater) (clients : List Client) :
    (w.release clients).network.RepliesLater := by
  unfold World.release
  dsimp only
  generalize clients.filterMap Client.stream = streams
  generalize w.network = net at h
  induction streams generalizing net with
  | nil => exact h
  | cons n streams ih =>
    refine ih _ (h.modify n fun conn hconn => ?_)
    rw [Connection.drop_peer]
    exact h.connections conn hconn

/-- **Whatever happens, no peer replies at once.** -/
theorem repliesLater_kept (set : Setting) : Kept set fun w => w.network.RepliesLater := by
  intro w w' h hmove
  cases hmove with
  | internalStep hs => exact hs.repliesLater h
  | dial id => exact Client.connect_repliesLater h id w.now
  | close c => exact close_repliesLater h c
  | release clients => exact release_repliesLater h clients
  | pass | failures | join | cancel | restart | handOver | spawn | sink => exact h

/-! ## Calls that end -/

/-- All that is under way ends, and no peer replies at once. The loops have such plans. -/
structure WaitsEnd (plans : EchoPlan → Prop) (w : World) : Prop where
  network : w.network.RepliesLater
  dials : ∀ d ∈ w.dials, d.ending ≠ none
  rounds : ∀ k ∈ w.workers, k.stage ≠ .busy none
  plans : ∀ k ∈ w.workers, plans k.plan

namespace WaitsEnd

theorem congr (h : w.WaitsEnd plans) (hnet : w'.network.RepliesLater)
    (hdials : ∀ d ∈ w'.dials, d ∈ w.dials)
    (hworkers : ∀ k ∈ w'.workers, k ∈ w.workers) : w'.WaitsEnd plans :=
  ⟨hnet, fun d hd => h.dials d (hdials d hd), fun k hk => h.rounds k (hworkers k hk),
    fun k hk => h.plans k (hworkers k hk)⟩

theorem set_worker (h : w.WaitsEnd plans) {i : Nat} {k : Worker} (k' : Worker)
    (hk : w.workers[i]? = some k) (hplan : k'.plan = k.plan) (hstage : k'.stage ≠ .busy none)
    (hnet : w'.network.RepliesLater) (hdials : w'.dials = w.dials)
    (hworkers : w'.workers = w.workers.set i k') : w'.WaitsEnd plans := by
  have hplan' : plans k'.plan := hplan ▸ h.plans k (List.mem_of_getElem? hk)
  refine ⟨hnet, hdials ▸ h.dials, ?_, ?_⟩ <;> rw [hworkers]
  · exact forall_mem_set h.rounds hstage
  · exact forall_mem_set h.plans hplan'

theorem internalStep (ho : set.options.Timed) (h : w.WaitsEnd plans) (hs : InternalStep set w w') :
    w'.WaitsEnd plans := by
  have hnet := hs.repliesLater h.network
  cases hs with
  | signal hsignal =>
    rw [interrupted_eq hsignal] at hnet ⊢
    exact ⟨hnet, h.dials, h.rounds, h.plans⟩
  | arrived | declined =>
    exact h.congr hnet (fun d hd => List.eraseIdx_subset hd) fun _ hk => hk
  | @echoed i k t latency hk =>
    exact h.set_worker k.advance hk rfl (fun hb => by cases hb) hnet rfl rfl
  | @broken i k t e hk =>
    exact h.set_worker { k with stage := .done } hk rfl (fun hb => by cases hb) hnet rfl rfl
  | @retire i k hk =>
    exact h.set_worker { k with stage := .done } hk rfl (fun hb => by cases hb) hnet rfl rfl
  | @start i length k source hk =>
    refine h.set_worker _ hk ?_ (fun hb => ?_) hnet rfl rfl
    · rfl
    · exact Client.echoRound_ne_none ho k.client w.now _ _ (Stage.busy.inj hb)

theorem dial (ho : set.options.Timed) (h : w.WaitsEnd plans) (id : Nat) :
    (w.dial set id).WaitsEnd plans := by
  refine ⟨Client.connect_repliesLater h.network id w.now, fun d hd => ?_, h.rounds, h.plans⟩
  rcases List.mem_append.1 hd with hd | hd
  · exact h.dials d hd
  · rw [List.mem_singleton.1 hd]
    exact Client.connect_ne_none ho id w.now w.network

theorem close (h : w.WaitsEnd plans) (c : Client) : (w.close c).WaitsEnd plans := by
  refine h.congr (close_repliesLater h.network c) ?_ ?_ <;> unfold World.close <;> split
  · exact fun _ hd => hd
  · exact fun _ hd => hd
  · exact fun _ hk => hk
  · exact fun _ hk => hk

theorem release (h : w.WaitsEnd plans) (clients : List Client) :
    (w.release clients).WaitsEnd plans :=
  h.congr (release_repliesLater h.network clients) (fun _ hd => hd) fun _ hk => hk

end WaitsEnd

/-- **Whatever happens, nothing takes for ever**, if both timeouts are set. -/
theorem waitsEnd_kept (ho : set.options.Timed) :
    KeptWith set plans (WaitsEnd plans) := by
  refine ⟨fun w w' h ha hlen => ?_, fun w plan c hplan h => ?_⟩
  · cases ha with
    | internalStep hs => exact h.internalStep ho hs
    | dial id => exact h.dial ho id
    | close c => exact h.close c
    | release clients => exact h.release clients
    | join i => exact h.congr h.network (fun _ hd => hd) fun _ hk => List.eraseIdx_subset hk
    | spawn plan c =>
      simp only [spawn, List.length_append, List.length_singleton] at hlen
      exact (Nat.not_succ_le_self _ hlen).elim
    | _ => exact ⟨h.network, h.dials, h.rounds, h.plans⟩
  · refine ⟨h.network, h.dials, fun k hk => ?_, fun k hk => ?_⟩ <;>
      rcases List.mem_append.1 hk with hk | hk
    · exact h.rounds k hk
    · rw [List.mem_singleton.1 hk]
      exact fun hb => by cases hb
    · exact h.plans k hk
    · rw [List.mem_singleton.1 hk]
      exact hplan

/-! ## What there is to do in all -/

/-- What there is to do that has no bound in time. -/
def turnsLeft (w : World) : Nat := w.active.toNat + (w.workers.map Worker.turnsLeft).sum

/-- A bound for what can happen before the clock moves on. -/
def movesNow (q : Waiting) (w : World) : Nat :=
  w.network.readable w.now + (w.workers.map (Worker.movesNow w.now)).sum + w.dials.length +
    w.signals.length + w.failures.length + q.alarm.toList.length

/-- All attempts, the alarm, and the rounds of loops that start no new ones without being counted
are over by `horizon`. -/
structure OverBy (horizon : Duration) (q : Waiting) (w : World) : Prop where
  now : w.now ≤ horizon
  dials : ∀ d ∈ w.dials, ∀ t r, d.ending = some (t, r) → t ≤ horizon
  rounds : ∀ k ∈ w.workers, w.active = false ∨ k.IsLimited →
    ∀ t r, k.stage = .busy (some (t, r)) → t ≤ horizon
  alarm : ∀ t, q.alarm = some t → t ≤ horizon

def rank (horizon : Duration) (q : Waiting) (w : World) : ℕ ×ₗ ℕ ×ₗ ℕ :=
  toLex (w.turnsLeft, toLex (horizon - w.now, w.movesNow q))

/-- A wait is nearer to its end: there is less to do at all, or less before the clock moves on. -/
inductive Nearer (q : Waiting) (w : World) (q' : Waiting) (w' : World) : Prop
  | less : w'.turnsLeft < w.turnsLeft → Nearer q w q' w'
  | sooner : w'.turnsLeft ≤ w.turnsLeft → w'.now = w.now →
      (∀ horizon, OverBy horizon q w → OverBy horizon q' w') → w'.movesNow q' < w.movesNow q →
      Nearer q w q' w'

theorem exists_overBy (q : Waiting) (w : World) : ∃ horizon, OverBy horizon q w := by
  obtain ⟨b, hb⟩ := exists_bound (fun d : Dial => d.ending.map (·.1)) w.dials
  obtain ⟨b', hb'⟩ := exists_bound
    (fun k : Worker => match k.stage with
      | .ready => none
      | .busy ending => ending.map (·.1)
      | .done => none) w.workers
  refine ⟨max (max w.now (q.alarm.getD 0)) (max b b'), by grind, fun d hd t r he => ?_,
    fun k hk _ t r hs => ?_, fun t ht => by grind⟩
  · have hle := hb d hd t (by rw [he]; rfl)
    grind
  · have hle := hb' k hk t (by rw [hs]; rfl)
    grind

/-- Whatever brings a wait nearer to its end lowers the rank, perhaps with a new horizon. -/
theorem Nearer.rank_lt (h : Nearer q w q' w') (hover : OverBy horizon q w) :
    ∃ horizon', OverBy horizon' q' w' ∧ rank horizon' q' w' < rank horizon q w := by
  cases h with
  | less hlt =>
    obtain ⟨horizon', hover'⟩ := exists_overBy q' w'
    exact ⟨horizon', hover', Prod.Lex.toLex_lt_toLex.2 (.inl hlt)⟩
  | sooner hle hnow hover' hlt =>
    refine ⟨horizon, hover' horizon hover, ?_⟩
    rcases Nat.lt_or_eq_of_le hle with hlt' | heq
    · exact Prod.Lex.toLex_lt_toLex.2 (.inl hlt')
    · refine Prod.Lex.toLex_lt_toLex.2 (.inr ⟨heq, Prod.Lex.toLex_lt_toLex.2 (.inr ⟨?_, hlt⟩)⟩)
      dsimp only
      rw [hnow]

theorem rank_tick (hnow : w.now ≤ t) (ht : t ≤ horizon) :
    rank horizon q (w.tick t) ≤ rank horizon q w := by
  rcases Nat.lt_or_eq_of_le hnow with hlt | rfl
  · refine le_of_lt (Prod.Lex.toLex_lt_toLex.2 (.inr ⟨rfl, Prod.Lex.toLex_lt_toLex.2 (.inl ?_)⟩))
    exact Nat.sub_lt_sub_left (Nat.lt_of_lt_of_le hlt ht) hlt
  · exact le_refl _

theorem OverBy.tick (h : OverBy horizon q w) (ht : t ≤ horizon) : OverBy horizon q (w.tick t) :=
  ⟨ht, h.dials, h.rounds, h.alarm⟩

/-! ## What happens -/

namespace Nearer

theorem cancel (h : Nearer q w q' w') : Nearer q w q' w'.cancel := by
  cases hactive : w'.active with
  | false =>
    have hsame : w'.cancel = w' := by rw [World.cancel, ← hactive]
    rwa [hsame]
  | true =>
    have hlt : w'.cancel.turnsLeft < w'.turnsLeft := by
      simp [turnsLeft, World.cancel, hactive]
    cases h with
    | less hlt' => exact .less (hlt.trans hlt')
    | sooner hle => exact .less (Nat.lt_of_lt_of_le hlt hle)

theorem of_worker {i : Nat} {k : Worker} (k' : Worker) (hk : w.workers[i]? = some k)
    (hworkers : w'.workers = w.workers.set i k') (hnow : w'.now = w.now)
    (hactive : w'.active = w.active) (hdials : w'.dials = w.dials)
    (hsignals : w'.signals = w.signals)
    (hturn : k'.turnsLeft < k.turnsLeft ∨ k'.turnsLeft ≤ k.turnsLeft ∧
      (w.active = false ∨ k'.IsLimited → ∀ t r, k'.stage ≠ .busy (some (t, r))) ∧
      w'.network.readable w.now + k'.movesNow w.now + w'.failures.length <
        w.network.readable w.now + k.movesNow w.now + w.failures.length) :
    Nearer q w q w' := by
  have houtlook : w'.turnsLeft + k.turnsLeft = w.turnsLeft + k'.turnsLeft := by
    rw [turnsLeft, turnsLeft, hworkers, hactive, sum_map_set hk, sum_map_eraseIdx hk]
    omega
  obtain hlt | ⟨hle, hstage, hlt⟩ := hturn
  · exact .less (by omega)
  · refine .sooner (by omega) hnow (fun horizon h => ?_) ?_
    · refine ⟨hnow ▸ h.now, hdials ▸ h.dials, ?_, h.alarm⟩
      rw [hworkers, hactive]
      exact forall_mem_set h.rounds fun hawaited t r hs => (hstage hawaited t r hs).elim
    · rw [World.movesNow, World.movesNow, hnow, hworkers, hdials, hsignals, sum_map_set hk,
        sum_map_eraseIdx hk]
      omega

theorem join {i : Nat} {k : Worker} (hk : w.workers[i]? = some k) (hs : k.stage = .done)
    (halarm : q'.alarm = q.alarm) : Nearer q w q' { w with workers := w.workers.eraseIdx i } := by
  have hweight : k.movesNow w.now = 1 := by simp only [Worker.movesNow, hs]
  refine .sooner ?_ rfl (fun horizon h => ?_) ?_
  · rw [turnsLeft, turnsLeft, sum_map_eraseIdx hk]
    dsimp only
    omega
  · exact ⟨h.now, h.dials, fun x hx => h.rounds x (List.eraseIdx_subset hx), halarm ▸ h.alarm⟩
  · rw [World.movesNow, World.movesNow, sum_map_eraseIdx hk, halarm]
    dsimp only
    omega

theorem mail {f : Failure} {rest : List Failure} (hf : w.failures = f :: rest)
    (halarm : q'.alarm = q.alarm) : Nearer q w q' { w with failures := rest } := by
  refine .sooner (Nat.le_refl _) rfl
    (fun horizon h => ⟨h.now, h.dials, h.rounds, halarm ▸ h.alarm⟩) ?_
  rw [World.movesNow, World.movesNow, hf, halarm, List.length_cons]
  dsimp only
  omega

theorem alarm (h : q.alarm = some t) (h' : q'.alarm = none) : Nearer q w q' w := by
  refine .sooner (Nat.le_refl _) rfl
    (fun horizon h => ⟨h.now, h.dials, h.rounds, fun t ht => by rw [h'] at ht; cases ht⟩) ?_
  rw [World.movesNow, World.movesNow, h, h']
  exact Nat.lt_succ_self _

end Nearer

/-- **Whatever happens brings a wait nearer to its end.** -/
theorem InternalStep.nearer (h : w.WaitsEnd plans) (hs : InternalStep set w w') : Nearer q w q w' := by
  have herase : ∀ {i : Nat} {d : Dial}, w.dials[i]? = some d →
      (w.dials.eraseIdx i).length < w.dials.length := by
    intro i d hd
    obtain ⟨hi, -⟩ := List.getElem?_eq_some_iff.1 hd
    rw [List.length_eraseIdx_of_lt hi]
    omega
  cases hs with
  | @signal t s rest hsignals =>
    rw [interrupted_eq hsignals]
    by_cases hflag : (w.active && s = .latch) = w.active
    · rw [hflag]
      refine .sooner (Nat.le_refl _) rfl (fun horizon h => ⟨h.now, h.dials, h.rounds, h.alarm⟩) ?_
      simp only [World.movesNow, hsignals, List.length_cons]
      omega
    · obtain ⟨hactive, hcleared⟩ : w.active = true ∧ (w.active && s = .latch) = false := by
        cases ha : w.active <;> simp_all
      rw [hcleared]
      exact .less (by simp [turnsLeft, hactive])
  | arrived hd | declined hd =>
    have hlt := herase hd
    refine .sooner (Nat.le_refl _) rfl (fun horizon h => ⟨h.now, fun d hd => ?_, h.rounds,
      h.alarm⟩) ?_
    · exact h.dials d (List.eraseIdx_subset hd)
    · simp only [World.movesNow, World.arrived, World.declined, note]
      omega
  | @echoed i k t latency hk hs ht =>
    refine .of_worker k.advance hk rfl rfl rfl rfl rfl (.inr ⟨k.turnsLeft_advance hs, ?_, ?_⟩)
    · exact fun _ _ _ hb => by cases hb
    · have hbefore : k.movesNow w.now = 5 := by simp [Worker.movesNow, hs, ht]
      have hafter : k.advance.movesNow w.now = 4 := rfl
      simp only [World.echoed, note, hbefore, hafter]
      omega
  | @broken i k t e hk hs =>
    refine .of_worker { k with stage := .done } hk rfl rfl rfl rfl rfl
      (.inr ⟨k.turnsLeft_done, fun _ _ _ hb => (by cases hb), ?_⟩)
    have hbefore : k.movesNow w.now = 3 := by simp [Worker.movesNow, hs]
    have hafter : ({ k with stage := .done } : Worker).movesNow w.now = 1 := rfl
    simp only [World.broken, note, hbefore, hafter, List.length_append, List.length_singleton]
    omega
  | @retire i k hk hs =>
    refine .of_worker { k with stage := .done } hk rfl rfl rfl rfl rfl
      (.inr ⟨k.turnsLeft_done, fun _ _ _ hb => (by cases hb), ?_⟩)
    have hbefore : k.movesNow w.now = 4 := by simp [Worker.movesNow, hs]
    have hafter : ({ k with stage := .done } : Worker).movesNow w.now = 1 := rfl
    simp only [World.retire, hbefore, hafter]
    omega
  | @start i length k source hk hs hactive hbudget =>
    obtain ⟨-, hle, hok⟩ := Client.echoRound_readable (o := set.options) h.network k.client w.now
      (Payload.fill length source).1
    refine .of_worker _ hk rfl rfl rfl rfl rfl ?_
    by_cases hlimited : k.IsLimited
    · exact .inl (Worker.turnsLeft_start hs hbudget hlimited rfl rfl rfl)
    · refine .inr ⟨(Worker.turnsLeft_eq_zero (by exact hlimited)).trans_le (Nat.zero_le _), ?_, ?_⟩
      · rintro (hflag | hlimited')
        · rw [hactive] at hflag
          cases hflag
        · exact (hlimited hlimited').elim
      · exact Nat.add_lt_add_right (Worker.movesNow_start hs rfl hle hok) _

/-! ## A whole wait -/

/-- A loop whose rounds are over by the horizon makes its turn by then, if its end is waited for. -/
theorem OverBy.exists_move (h : OverBy horizon q w) (hw : w.WaitsEnd plans) {k : Worker}
    (hk : k ∈ w.workers) (hawaited : w.active = false ∨ k.IsLimited) (hjoins : q.joins k = true) :
    ∃ t m, (t, m) ∈ w.moves q ∧ t ≤ horizon := by
  obtain ⟨i, hi⟩ := List.mem_iff_getElem?.1 hk
  cases hs : k.stage with
  | ready =>
    obtain ⟨t, m, hm, hle⟩ := exists_move_of_ready hk hs
    exact ⟨t, m, hm, Nat.le_trans hle h.now⟩
  | busy ending =>
    cases ending with
    | none => exact (hw.rounds k hk hs).elim
    | some e => exact ⟨e.1, _, round_mem_moves hi hs, h.rounds k hk hawaited e.1 e.2 hs⟩
  | done => exact ⟨w.now, _, join_mem_moves hi hs hjoins, h.now⟩

/-- **A wait in which nothing takes for ever comes to a result**, if by every horizon something can
happen that brings it nearer to its end. `I` is what the wait keeps, and `Q` holds of its result. -/
theorem attend_nearer {σ ρ : Type} {watch : Watch σ ρ}
    (hplans : ∀ plan, plans plan → ∃ n, plan.payload.Allows n)
    {I : σ → World → Prop} {Q : World → ρ → Prop} (hends : ∀ s w, I s w → w.WaitsEnd plans)
    (hended : ∀ s w t, (watch.waiting s).ended (w.tick t) = (watch.waiting s).ended w)
    (hmove : ∀ horizon s w, I s w → OverBy horizon (watch.waiting s) w →
      ∃ t₁ m₁, (t₁, m₁) ∈ w.moves (watch.waiting s) ∧ t₁ ≤ horizon ∧
        ∀ t, w.now ≤ t → t ≤ max w.now t₁ → I s (w.tick t))
    (hinternal : ∀ s w w', I s w → InternalStep set w w' → I s w')
    (hwakeup : ∀ s w w' b, I s w → Wakes (watch.waiting s) w w' b →
      match watch.react s b w' with
      | (w'', .inl s') => I s' w'' ∧ Nearer (watch.waiting s) w (watch.waiting s') w''
      | (w'', .inr x) => Q w'' x)
    {s : σ} (hI : I s w) :
    ∃ w' x, Settles (fun fuel => w.attend set watch fuel s) (w', x) ∧ Q w' x := by
  obtain ⟨horizon, hover⟩ := exists_overBy (watch.waiting s) w
  refine attend_total (I := fun r s w => I s w ∧
    ∃ horizon, OverBy horizon (watch.waiting s) w ∧ r = rank horizon (watch.waiting s) w)
    ?_ hended ?_ ?_ ?_ ⟨hI, horizon, hover, rfl⟩
  · rintro r s w ⟨hI, -⟩ k hk
    obtain ⟨n, hn⟩ := hplans k.plan ((hends s w hI).plans k hk)
    exact PayloadSize.sample_ne_none hn
  · rintro r s w ⟨hI, horizon, hover, rfl⟩
    obtain ⟨t₁, m₁, hm, ht₁, htick⟩ := hmove horizon s w hI hover
    refine ⟨t₁, m₁, hm, fun t hnow ht => ?_⟩
    have hle : t ≤ horizon := Nat.le_trans ht (Nat.max_le.2 ⟨hover.now, ht₁⟩)
    exact ⟨_, rank_tick hnow hle, htick t hnow ht, horizon, hover.tick hle, rfl⟩
  · rintro r s w w' ⟨hI, horizon, hover, rfl⟩ hs
    obtain ⟨horizon', hover', hlt⟩ := (hs.nearer (hends s w hI)).rank_lt hover
    exact ⟨_, hlt, hinternal s w w' hI hs, horizon', hover', rfl⟩
  · rintro r s w w' b ⟨hI, horizon, hover, rfl⟩ hr
    have hreact := hwakeup s w w' b hI hr
    split
    · next w'' s' he =>
      rw [he] at hreact
      obtain ⟨hI', hnearer⟩ := hreact
      obtain ⟨horizon', hover', hlt⟩ := hnearer.rank_lt hover
      exact ⟨_, hlt, hI', horizon', hover', rfl⟩
    · next w'' x he =>
      rw [he] at hreact
      exact hreact

/-- **A wait returns** if both timeouts are set. `I` is what it keeps besides. -/
theorem attend_returns {σ ρ : Type} (watch : Watch σ ρ) (ho : set.options.Timed)
    (hplans : ∀ plan, plans plan → ∃ n, plan.payload.Allows n)
    {I : σ → World → Prop}
    (hended : ∀ s w t, (watch.waiting s).ended (w.tick t) = (watch.waiting s).ended w)
    (htick : ∀ s, Timeless (I s)) (hinternal : ∀ s w w', I s w → InternalStep set w w' → I s w')
    (hmove : ∀ horizon s w, I s w → w.WaitsEnd plans → OverBy horizon (watch.waiting s) w →
      ∃ t m, (t, m) ∈ w.moves (watch.waiting s) ∧ t ≤ horizon)
    (hwakeup : ∀ s w w' b, I s w → w.WaitsEnd plans → Wakes (watch.waiting s) w w' b →
      match watch.react s b w' with
      | (w'', .inl s') =>
        I s' w'' ∧ w''.WaitsEnd plans ∧ Nearer (watch.waiting s) w (watch.waiting s') w''
      | _ => True)
    {s : σ} (hI : I s w) (hw : w.WaitsEnd plans) : Returns fun fuel => w.attend set watch fuel s := by
  suffices hwait : ∃ w' x, Settles (fun fuel => w.attend set watch fuel s) (w', x) ∧ True by
    obtain ⟨w', x, hx, -⟩ := hwait
    exact ⟨_, hx⟩
  refine attend_nearer (I := fun s w => I s w ∧ w.WaitsEnd plans) (Q := fun _ _ => True) hplans
    (fun _ _ h => h.2) hended ?_
    (fun s w w' h hs => ⟨hinternal s w w' h.1 hs, h.2.internalStep ho hs⟩) ?_
    ⟨hI, hw⟩
  · intro horizon s w h hover
    obtain ⟨t₁, m₁, hm, ht₁⟩ := hmove horizon s w h.1 h.2 hover
    refine ⟨t₁, m₁, hm, ht₁, fun t _ _ => ⟨htick s w t h.1, ?_⟩⟩
    exact ⟨h.2.network, h.2.dials, h.2.rounds, h.2.plans⟩
  · intro s w w' b h hr
    have hreact := hwakeup s w w' b h.1 h.2 hr
    split
    · next w'' s' he =>
      rw [he] at hreact
      exact ⟨⟨hreact.1, hreact.2.1⟩, hreact.2.2⟩
    · trivial

end World

end EchoLoad
