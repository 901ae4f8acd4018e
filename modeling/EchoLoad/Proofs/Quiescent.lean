import EchoLoad.Proofs.Pool
import EchoLoad.Proofs.Progress
/-!
A world in which nothing will happen by itself: no attempt is in flight, no loop runs, and no
interrupt is to come. There a sleep takes one step, and closing comes to its end. Main statements:
`Quiescent.sleep` and `Quiescent.closeAll`.
-/

namespace EchoLoad.World

/-- Nothing will happen unless the controller does it. -/
structure Quiescent (w : World) : Prop where
  signals : w.signals = []
  dials : w.dials = []
  workers : w.workers = []

/-- What a controller that closes clients or sleeps leaves alone. -/
structure OnlyCloses (w w' : World) : Prop where
  signals : w'.signals = w.signals
  dials : w'.dials = w.dials
  workers : w'.workers = w.workers
  stopped : w'.stopped = w.stopped
  requests : w'.network.connections.map Connection.requests =
    w.network.connections.map Connection.requests

variable {w w' w'' : World}

theorem OnlyCloses.refl (w : World) : w.OnlyCloses w := ⟨rfl, rfl, rfl, rfl, rfl⟩

theorem OnlyCloses.trans (h : w.OnlyCloses w') (h' : w'.OnlyCloses w'') : w.OnlyCloses w'' :=
  ⟨h'.signals.trans h.signals, h'.dials.trans h.dials, h'.workers.trans h.workers,
    h'.stopped.trans h.stopped, h'.requests.trans h.requests⟩

theorem OnlyCloses.quiescent (h : w.OnlyCloses w') (hw : w.Quiescent) : w'.Quiescent :=
  ⟨h.signals.trans hw.signals, h.dials.trans hw.dials, h.workers.trans hw.workers⟩

theorem close_onlyCloses (w : World) (c : Client) : w.OnlyCloses (w.close c) := by
  have hmodify : ∀ (n : Nat) (connections : List Connection),
      (connections.modify n fun conn => conn.shutdown.1).map Connection.requests =
        connections.map Connection.requests := by
    intro n connections
    refine List.ext_getElem? fun m => ?_
    rw [List.getElem?_map, List.getElem?_map, List.getElem?_modify]
    split <;> cases connections[m]? <;> rfl
  unfold World.close Client.close
  by_cases hopen : c.isOpen = true
  · rw [if_pos hopen, if_pos hopen]
    refine ⟨rfl, rfl, rfl, rfl, ?_⟩
    cases c.stream with
    | none => rfl
    | some n => exact hmodify n w.network.connections
  · rw [if_neg hopen]
    exact .refl w

/-- **Closing comes to its end** if every pause does. -/
theorem closeAll_ends {P : World → Prop} {set : Setting} {pause : Duration}
    (hclose : ∀ w c, P w → P (w.close c))
    (hsleep : ∀ w, P w → Returns fun fuel => w.sleep set fuel pause)
    (hkeep : ∀ w w' fuel, P w → w.sleep set fuel pause = .ok w' → P w') (hw : P w) (batch : Nat)
    (clients : List Client) : Returns fun fuel => w.closeAll set fuel batch pause clients := by
  induction hn : clients.length using Nat.strong_induction_on generalizing clients w with
  | _ len ih =>
    by_cases hnil : clients = []
    · refine .of_ok (x := (w, 0)) fun fuel => ?_
      rw [closeAll, if_pos hnil]
    have hlen : (clients.drop (max batch 1)).length < len := hn ▸ drop_batch_lt batch hnil
    let closed := w.closeBatch (clients.take (max batch 1))
    have hclosed : P closed.1 := closeBatch_keeps hclose _ hw
    have hpause : Returns fun fuel =>
        if clients.drop (max batch 1) = [] ∨ pause = 0 then Except.ok closed.1
        else closed.1.sleep set fuel pause := by
      split
      · exact .of_ok fun _ => rfl
      · exact hsleep _ hclosed
    refine hpause.follow fun fuel w1 hok => ?_
    have hw1 : P w1 := by
      split at hok
      · cases hok
        exact hclosed
      · exact hkeep _ _ fuel hclosed hok
    refine ⟨_, (ih _ hlen hw1 _ rfl).map fun x => (x.1, closed.2 + x.2), fun m hm => ?_⟩
    rw [closeAll, if_neg hnil]
    dsimp only [closed] at hm ⊢
    rw [hm]

namespace Quiescent

/-- **A sleep takes one step.** The alarm is all that can happen. -/
theorem sleep (h : w.Quiescent) (set : Setting) (d : Duration) :
    Settles (fun fuel => w.sleep set fuel d) (w.tick (w.now + d)) := by
  have hmoves : w.moves { alarm := some (w.now + d) } = [(w.now + d, .alarm)] := by
    simp [moves, wakeups, workerMoves, dialMoves, signalMoves, h.signals, h.dials, h.workers]
  have hchoose : w.choose set { alarm := some (w.now + d) } = some (w.now + d, .alarm) := by
    simp [choose, hmoves, earliest, Nat.mod_one]
  refine ⟨1, fun fuel hfuel => ?_⟩
  obtain ⟨fuel, rfl⟩ := Nat.exists_eq_add_of_le' hfuel
  simp only [World.sleep, attend, step, sleeping, hchoose, World.apply]
  rfl

theorem not_internalStep {set : Setting} (h : w.Quiescent) (hs : InternalStep set w w') : False := by
  cases hs with
  | signal hsignal => simp [h.signals] at hsignal
  | arrived hd | declined hd => simp [h.dials] at hd
  | echoed hk | broken hk | start hk | retire hk => simp [h.workers] at hk

theorem sleep_onlyCloses {set : Setting} {fuel : Nat} {d : Duration} (h : w.Quiescent)
    (hsleep : w.sleep set fuel d = .ok w') : w.OnlyCloses w' := by
  obtain ⟨⟨w1, _⟩, hwait, rfl⟩ := map_eq_ok.1 hsleep
  refine attend_rule (I := fun _ => w.OnlyCloses) (Q := fun w1 _ => w.OnlyCloses w1)
    (fun _ _ _ h => ⟨h.signals, h.dials, h.workers, h.stopped, h.requests⟩)
    (fun _ _ _ hw hs => ((hw.quiescent h).not_internalStep hs).elim) ?_ (.refl w) hwait
  intro _ w1 w2 b hw hr
  cases hr with
  | alarm => exact hw
  | mail hm => cases hm
  | joined _ _ hj => cases hj
  | ended he => cases he

/-- **Clients are closed**, with pauses or without. -/
theorem closeAll (h : w.Quiescent) (set : Setting) (batch : Nat) (pause : Duration)
    (clients : List Client) :
    ∃ w' n, Settles (fun fuel => w.closeAll set fuel batch pause clients) (w', n) ∧
      w.OnlyCloses w' := by
  have hclose : ∀ w1 c, w.OnlyCloses w1 → w.OnlyCloses (w1.close c) :=
    fun w1 c hw1 => hw1.trans (close_onlyCloses w1 c)
  have hkeep : ∀ w1 w2 fuel, w.OnlyCloses w1 → w1.sleep set fuel pause = .ok w2 → w.OnlyCloses w2 :=
    fun w1 w2 fuel hw1 hsleep => hw1.trans ((hw1.quiescent h).sleep_onlyCloses hsleep)
  obtain ⟨⟨w', n⟩, hx⟩ := closeAll_ends hclose
    (fun w1 hw1 => ⟨_, (hw1.quiescent h).sleep set pause⟩) hkeep (.refl w) batch clients
  obtain ⟨fuel, hok⟩ := hx.exists_ok
  refine ⟨w', n, hx, ?_⟩
  exact closeAll_rule (m := 0) (I := fun _ _ => w.OnlyCloses)
    (fun first _ _ w1 hw1 => closeBatch_keeps hclose first hw1)
    (fun _ _ w1 w2 hw1 hs => hkeep w1 w2 fuel hw1 hs) (.refl w) hok

end Quiescent

end EchoLoad.World
