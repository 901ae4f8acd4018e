import EchoLoad.Proofs.RunStep
import EchoLoad.Proofs.NotInLoop
import EchoLoad.Proofs.Idle
import EchoLoad.Proofs.Quiescent
import EchoLoad.Random.SplitMix
import Mathlib.Algebra.Order.Floor.Div
/-!
Clients are closed batch by batch, whatever else goes on: interrupts arrive, attempts end, loops of
other clients run. What is closed does not depend on the batches, and when it is closed depends on
nothing else. Main statement: `closeAll_contract`.
-/

namespace EchoLoad

namespace Client

/-- The connections that open clients hold. -/
def streams (clients : List Client) : List Nat :=
  (clients.filter Client.isOpen).filterMap Client.stream

/-- What closing notes, if client number `i` is closed at the instant `time i`. -/
def timetable (time : Nat → Duration) (clients : List Client) : List (Duration × Event) :=
  clients.zipIdx.filterMap fun (c, i) => if c.isOpen then some (time i, .closed c.id) else none

/-- What becomes of connection `n` when clients are closed. -/
def shut (clients : List Client) (n : Nat) (conn : Connection) : Connection :=
  if n ∈ streams clients then conn.shutdown.1 else conn

variable {n : Nat}

theorem streams_append (first rest : List Client) :
    streams (first ++ rest) = streams first ++ streams rest := by
  rw [streams, List.filter_append, List.filterMap_append]
  rfl

theorem shut_of_notMem {clients : List Client} (h : n ∉ streams clients) :
    shut clients n = fun conn => conn :=
  funext fun _ => if_neg h

theorem shut_append (first rest : List Client) (n : Nat) (conn : Connection) :
    shut (first ++ rest) n conn = shut rest n (shut first n conn) := by
  simp only [shut, streams_append, List.mem_append]
  by_cases hrest : n ∈ streams rest
  · simp only [hrest, or_true, if_true]
    split <;> rfl
  · simp only [hrest, or_false, if_false]

theorem timetable_append (time : Nat → Duration) (first rest : List Client) :
    timetable time (first ++ rest) =
      timetable time first ++ timetable (fun i => time (i + first.length)) rest := by
  have hrest : rest.zipIdx (0 + first.length) =
      rest.zipIdx.map fun x => (x.1, x.2 + first.length) := by
    rw [Nat.zero_add, List.zipIdx_eq_map_add]
    simp [Nat.add_comm]
  rw [timetable, List.zipIdx_append, hrest, List.filterMap_append, List.filterMap_map]
  rfl

theorem timetable_congr {time time' : Nat → Duration} {clients : List Client}
    (h : ∀ i < clients.length, time i = time' i) :
    timetable time clients = timetable time' clients := by
  refine List.filterMap_congr ?_
  rintro ⟨c, i⟩ hc
  obtain ⟨-, hi, -⟩ := List.mem_zipIdx hc
  dsimp only
  rw [h i (by omega)]

theorem timetable_isClosing (time : Nat → Duration) (clients : List Client) :
    (timetable time clients).filter (·.2.isClosing) = timetable time clients := by
  refine List.filter_eq_self.2 fun x hx => ?_
  obtain ⟨⟨c, i⟩, -, he⟩ := List.mem_filterMap.1 hx
  dsimp only at he
  split at he
  · cases he
    rfl
  · cases he

end Client

namespace World

variable {set : Setting} {q : Waiting} {w w' : World} {fuel : Nat} {d t : Duration}

/-! ## A pause -/

theorem step_by_alarm {b : Option Wakeup} (h : w.step set q = .ok (w', b)) (halarm : q.alarm = some t)
    (hnow : w.now ≤ t) :
    ∃ t', t' ≤ t ∧ ((b = none ∧ InternalSteps set (w.tick t') w') ∨
      ∃ wakeup, b = some wakeup ∧ Wakes q (w.tick t') w' wakeup) := by
  unfold step at h
  split at h
  · cases h
  · next t' m hc =>
    obtain ⟨-, t₀, ht₀, hd⟩ := choose_due hc
    have hle : t' ≤ t := (choose_le hc (alarm_mem_moves halarm)).trans (Nat.max_le.2 ⟨hnow, le_rfl⟩)
    refine ⟨t', hle, ?_⟩
    obtain ⟨hb, hs | ⟨rfl, -⟩⟩ | hr := apply_due ht₀ hd h
    · exact .inl ⟨hb, hs.to_reflTransGen⟩
    · exact .inl ⟨hb, .refl⟩
    · exact .inr hr

/-- **A sleep ends when it is to end**, whatever happens meanwhile. -/
theorem sleep_by (h : w.sleep set fuel d = .ok w') :
    w.OnlyLoopsChange w' ∧ w'.now = w.now + d := by
  obtain ⟨⟨w1, _⟩, hwait, rfl⟩ := map_eq_ok.1 h
  have hnow : w.now ≤ w.now + d := Nat.le_add_right ..
  generalize w.now + d = alarm at hwait hnow
  clear h
  induction fuel generalizing w with
  | zero => cases hwait
  | succ fuel ih =>
    simp only [attend] at hwait
    split at hwait
    · cases hwait
    · next w2 hs =>
      obtain ⟨t, ht, ⟨-, hst⟩ | ⟨wakeup, hb, -⟩⟩ := step_by_alarm hs rfl hnow
      · have hpass : w.OnlyLoopsChange w2 := hst.onlyLoopsChange.1.of_tick
        have hnow2 : w2.now ≤ alarm := hst.onlyLoopsChange.2.trans_le ht
        obtain ⟨hrest, hend⟩ := ih hwait hnow2
        exact ⟨hpass.trans hrest, hend⟩
      · cases hb
    · next w2 wakeup hs =>
      obtain ⟨t, ht, ⟨hb, -⟩ | ⟨wakeup', hb, hr⟩⟩ := step_by_alarm hs rfl hnow
      · cases hb
      · cases hb
        cases hr with
        | alarm ha hdue =>
          cases ha
          cases hwait
          exact ⟨(OnlyLoopsChange.refl _).of_tick, Nat.le_antisymm ht hdue⟩
        | mail hm => cases hm
        | joined _ _ hj => cases hj
        | ended he => cases he

/-! ## A batch -/

theorem close_connections (w : World) (c : Client) (n : Nat) :
    (w.close c).network.connections[n]? =
      (w.network.connections[n]?).map (Client.shut [c] n) := by
  by_cases hmem : n ∈ Client.streams [c]
  · obtain ⟨hopen, hstream⟩ : c.isOpen = true ∧ c.stream = some n := by
      simpa [Client.streams, List.filter_cons, List.filterMap_cons] using hmem
    have hclose : (w.close c).network = w.network.modify n fun conn => conn.shutdown.1 := by
      simp [World.close, Client.close, hopen, hstream]
    rw [hclose, Network.modify, List.getElem?_modify_eq]
    exact congrArg (Option.map · _) (funext fun _ => (if_pos hmem).symm)
  · rw [Client.shut_of_notMem hmem, Option.map_id']
    unfold World.close Client.close
    by_cases hopen : c.isOpen = true
    · rw [if_pos hopen, if_pos hopen]
      cases hstream : c.stream with
      | none => rfl
      | some m =>
        have hm : m ≠ n := fun h => hmem (by simp [Client.streams, hopen, hstream, h])
        exact List.getElem?_modify_ne _ _ hm
    · rw [if_neg hopen]

theorem closeBatch_connections (clients : List Client) (w : World) (n : Nat) :
    (w.closeBatch clients).1.network.connections[n]? =
      (w.network.connections[n]?).map (Client.shut clients n) := by
  induction clients generalizing w with
  | nil =>
    have hnil : n ∉ Client.streams [] := List.not_mem_nil
    rw [Client.shut_of_notMem hnil, Option.map_id']
    rfl
  | cons c clients ih =>
    refine (ih (w.close c)).trans ?_
    rw [close_connections, Option.map_map]
    exact congrArg (Option.map · _)
      (funext fun conn => (Client.shut_append [c] clients n conn).symm)

/-- A batch is closed at one instant, in order. -/
theorem closeBatch_journal (clients : List Client) (w : World) :
    (w.closeBatch clients).1.journal =
      (Client.timetable (fun _ => w.now) clients).reverse ++ w.journal := by
  induction clients generalizing w with
  | nil => rfl
  | cons c clients ih =>
    have hnow : (w.close c).now = w.now := by
      unfold World.close
      split <;> rfl
    have hjournal : (w.close c).journal =
        (Client.timetable (fun _ => w.now) [c]).reverse ++ w.journal := by
      unfold World.close Client.timetable
      split <;> simp [note, *]
    refine (ih (w.close c)).trans ?_
    rw [hnow, hjournal, ← List.append_assoc, ← List.reverse_append]
    exact congrArg (fun l => List.reverse l ++ _) (Client.timetable_append _ [c] clients).symm

/-! ## All batches -/

/-- The instant at which client number `i` is closed, if closing starts at `start`. -/
def closingTime (start : Duration) (batch : Nat) (pause : Duration) (i : Nat) : Duration :=
  start + i / max batch 1 * pause

theorem pauses_add {batch rest : Nat} (hbatch : 0 < batch) (hrest : 0 < rest) :
    (batch + rest) ⌈/⌉ batch - 1 = (rest ⌈/⌉ batch - 1) + 1 := by
  have hpos : 0 < (rest + batch - 1) / batch := Nat.div_pos (by omega) hbatch
  rw [Nat.ceilDiv_eq_add_pred_div, Nat.ceilDiv_eq_add_pred_div,
    show batch + rest + batch - 1 = rest + batch - 1 + batch by omega,
    Nat.add_div_right _ hbatch]
  omega

/-- Between `w` and `w'` the clients given were closed, batch by batch. -/
structure ClosedAll (batch : Nat) (pause : Duration) (clients : List Client) (w w' : World)
    (count : Nat) : Prop where
  count : count = clients.countP Client.isOpen
  /-- A connection that no loop holds is shut down if it belongs to an open client, and is left as
  it is if not. -/
  connections : ∀ n, w.NotInLoop n → w'.network.connections[n]? =
    (w.network.connections[n]?).map (Client.shut clients n)
  /-- Each open client is closed once, those of a batch together, and nobody else is. -/
  closings : ∃ es, w'.journal = es ++ w.journal ∧ es.reverse.filter (·.2.isClosing) =
    Client.timetable (closingTime w.now batch pause) clients
  /-- There is a pause between one batch and the next, and none behind the last. -/
  now : w'.now = w.now + (clients.length ⌈/⌉ max batch 1 - 1) * pause

namespace ClosedAll

variable {batch count : Nat} {pause : Duration} {clients first rest : List Client}

theorem of_batch (hle : clients.length ≤ max batch 1) (w : World) :
    ClosedAll batch pause clients w (w.closeBatch clients).1 (w.closeBatch clients).2 where
  count := rfl
  connections n _ := closeBatch_connections clients w n
  closings := by
    refine ⟨_, closeBatch_journal clients w, ?_⟩
    rw [List.reverse_reverse, Client.timetable_isClosing]
    refine Client.timetable_congr fun i hi => ?_
    rw [closingTime, Nat.div_eq_of_lt (hi.trans_le hle), Nat.zero_mul, Nat.add_zero]
  now := by
    obtain ⟨network, journal, he⟩ := closeBatch_frame clients w
    have hone : clients.length ⌈/⌉ max batch 1 ≤ 1 :=
      (ceilDiv_le_iff_le_mul (by omega)).2 (by omega)
    rw [he, Nat.sub_eq_zero_of_le hone, Nat.zero_mul, Nat.add_zero]

theorem after (hlen : first.length = max batch 1) (hne : rest ≠ []) {w₁ : World}
    (hpass : (w.closeBatch first).1.OnlyLoopsChange w₁) (hnow : w₁.now = w.now + pause)
    (h : ClosedAll batch pause rest w₁ w' count) :
    ClosedAll batch pause (first ++ rest) w w' ((w.closeBatch first).2 + count) where
  count := by
    rw [h.count, List.countP_append]
    rfl
  connections n hn := by
    obtain ⟨network, journal, he⟩ := closeBatch_frame first w
    have hn₁ : (w.closeBatch first).1.NotInLoop n := by
      rw [he]
      exact hn
    rw [h.connections n (hpass.notInLoop n hn₁), hpass.connections n hn₁, closeBatch_connections,
      Option.map_map]
    exact congrArg (Option.map · _)
      (funext fun conn => (Client.shut_append first rest n conn).symm)
  closings := by
    obtain ⟨es, hes, hrest⟩ := h.closings
    obtain ⟨es₁, hes₁, hnone⟩ := hpass.journal
    refine ⟨es ++ (es₁ ++ (Client.timetable (fun _ => w.now) first).reverse), ?_, ?_⟩
    · rw [hes, hes₁, closeBatch_journal, List.append_assoc, List.append_assoc]
    have hwait : es₁.reverse.filter (·.2.isClosing) = [] :=
      List.filter_eq_nil_iff.2 fun x hx => by simp [hnone x (List.mem_reverse.1 hx)]
    have hfirst : Client.timetable (fun _ => w.now) first =
        Client.timetable (closingTime w.now batch pause) first := by
      refine Client.timetable_congr fun i hi => ?_
      rw [closingTime, Nat.div_eq_of_lt (hlen ▸ hi), Nat.zero_mul, Nat.add_zero]
    have hlater : ∀ i, closingTime w₁.now batch pause i =
        closingTime w.now batch pause (i + first.length) := by
      intro i
      rw [closingTime, closingTime, hlen, Nat.add_div_right _ (by omega), hnow, Nat.succ_mul,
        Nat.add_right_comm, Nat.add_assoc]
    rw [List.reverse_append, List.reverse_append, List.reverse_reverse, List.filter_append,
      List.filter_append, hwait, List.append_nil, hrest, Client.timetable_isClosing, hfirst,
      Client.timetable_append, funext hlater]
  now := by
    rw [h.now, hnow, List.length_append, hlen,
      pauses_add (Nat.le_max_right ..) (List.length_pos_iff.2 hne), Nat.succ_mul,
      Nat.add_right_comm, Nat.add_assoc]

end ClosedAll

theorem closeAll_closes {batch count : Nat} {pause : Duration} {clients : List Client}
    (h : w.closeAll set fuel batch pause clients = .ok (w', count)) :
    ClosedAll batch pause clients w w' count := by
  induction hn : clients.length using Nat.strong_induction_on generalizing clients w count with
  | _ len ih =>
    by_cases hle : clients.length ≤ max batch 1
    · have hone : w.closeAll set fuel batch pause clients = .ok (w.closeBatch clients) := by
        rw [closeAll]
        split
        · next hnil =>
          rw [hnil]
          rfl
        · have hrest : clients.drop (max batch 1) = [] := List.drop_eq_nil_of_le hle
          simp only [hrest, List.take_of_length_le hle, true_or, if_true]
          rw [closeAll, if_pos rfl]
          rfl
      rw [hone] at h
      cases h
      exact .of_batch hle w
    · have hnil : clients ≠ [] := by
        rintro rfl
        exact hle (Nat.zero_le _)
      have hrest : clients.drop (max batch 1) ≠ [] := by
        simpa [List.drop_eq_nil_iff] using hle
      have hfirst : (clients.take (max batch 1)).length = max batch 1 :=
        List.length_take_of_le (by omega)
      rw [closeAll, if_neg hnil] at h
      dsimp only at h
      split at h
      · cases h
      · next w₁ hpause =>
        obtain ⟨network, journal, he⟩ := closeBatch_frame (clients.take (max batch 1)) w
        have hpaused : (w.closeBatch (clients.take (max batch 1))).1.OnlyLoopsChange w₁ ∧
            w₁.now = w.now + pause := by
          split at hpause
          · next hzero =>
            cases hpause
            refine ⟨.refl _, ?_⟩
            rw [hzero.resolve_left hrest, he]
            rfl
          · obtain ⟨hpass, hnow⟩ := sleep_by hpause
            refine ⟨hpass, ?_⟩
            rw [hnow, he]
        obtain ⟨⟨w₂, n⟩, hok, heq⟩ := map_eq_ok.1 h
        cases heq
        have hall := ih _ (hn ▸ drop_batch_lt batch hnil) hok rfl
        have hclosed := hall.after hfirst hrest hpaused.1 hpaused.2
        rwa [List.take_append_drop] at hclosed

end World

/-- **Closing clients.** Whatever state they are in, however large a batch is and however long a
pause, and whatever else is under way: the result is the number of those that were open; their
connections are shut down, also where that reports an error, and no other connection is touched;
each open client is closed once, with its batch. A batch is closed one pause after the one before
it, and behind the last there is no pause. The count and what becomes of the connections depend on
neither. While no loop runs, closing always comes to its end. -/
theorem closeAll_contract (set : Setting) (batch : Nat) (pause : Duration) (clients : List Client)
    (w : World) :
    (∀ fuel w' count, w.closeAll set fuel batch pause clients = .ok (w', count) →
      w.ClosedAll batch pause clients w' count) ∧
    (w.workers = [] → (Returns fun fuel => w.closeAll set fuel batch pause clients) ∧
      ∀ fuel fuel' batch' pause' w₁ w₂ count₁ count₂,
        w.closeAll set fuel batch pause clients = .ok (w₁, count₁) →
        w.closeAll set fuel' batch' pause' clients = .ok (w₂, count₂) →
        count₁ = count₂ ∧ w₁.network.connections = w₂.network.connections) := by
  refine ⟨fun _ _ _ h => World.closeAll_closes h, fun hw => ⟨?_, ?_⟩⟩
  · refine World.closeAll_ends (P := fun w => w.workers = []) (fun w c hw => ?_)
      (fun _ hw => World.sleep_idle_returns hw pause)
      (fun _ _ _ hw hs => (World.sleep_idle hw hs).workers) hw batch clients
    unfold World.close
    split <;> exact hw
  · intro fuel fuel' batch' pause' w₁ w₂ count₁ count₂ h₁ h₂
    have hapart : ∀ n, w.NotInLoop n := by simp [World.NotInLoop, hw]
    have hclosed₁ := World.closeAll_closes h₁
    have hclosed₂ := World.closeAll_closes h₂
    refine ⟨hclosed₁.count.trans hclosed₂.count.symm, List.ext_getElem? fun n => ?_⟩
    rw [hclosed₁.connections n (hapart n), hclosed₂.connections n (hapart n)]

/-- Batches of one and a pause of five. The first client is open and its shutdown reports an error,
the second has failed, the third is in use. An interrupt arrives meanwhile. -/
theorem closeAll_contract_three :
    let clients : List Client := [{ id := 0, state := .connected, stream := some 0 },
      { id := 1, state := .failed }, { id := 2, state := .active, stream := some 2 }]
    let connections : List Connection := [
      { peer := { shutdownError := some .writeZero }, fate := .open },
      { peer := {}, fate := .dropped }, { peer := {}, fate := .open }, { peer := {}, fate := .open }]
    let w : World := { network := { connections }, signals := [(7, .interrupt)] }
    ∃ w' count, w.closeAll { source := SplitMix.source #[] 0 } 9 0 5 clients = .ok (w', count) ∧
      count = 2 ∧ w'.now = 10 ∧
      w'.network.connections.map Connection.fate = [.shutdown, .dropped, .shutdown, .open] ∧
      w'.journal.reverse.filter (·.2.isClosing) = [(0, .closed 0), (10, .closed 2)] ∧
      ∀ fuel batch' pause' w₂ count₂,
        w.closeAll { source := SplitMix.source #[] 0 } fuel batch' pause' clients =
          .ok (w₂, count₂) →
        count₂ = 2 ∧ w₂.network.connections = w'.network.connections := by
  intro clients connections w
  let set : Setting := { source := SplitMix.source #[] 0 }
  have hw : w.workers = [] := rfl
  obtain ⟨hclosed, halways⟩ := closeAll_contract set 0 5 clients w
  have hruns : ((w.closeAll set 9 0 5 clients).toOption.any fun _ => true) = true := by
    decide +kernel
  obtain ⟨⟨w', count⟩, h, -⟩ := toOption_any.1 hruns
  have hall := hclosed 9 w' count h
  have hcount : count = 2 := hall.count
  refine ⟨w', count, h, hcount, ?_, List.ext_getElem? fun n => ?_, ?_, ?_⟩
  · rw [hall.now, Nat.ceilDiv_eq_add_pred_div]
    show 0 + ((3 + max 0 1 - 1) / max 0 1 - 1) * 5 = 10
    decide
  · rw [List.getElem?_map, hall.connections n (by simp [World.NotInLoop, hw])]
    match n with
    | 0 | 1 | 2 | 3 => rfl
    | n + 4 => rfl
  · obtain ⟨es, hes, hclosings⟩ := hall.closings
    rw [hes, List.append_nil]
    exact hclosings
  · intro fuel batch' pause' w₂ count₂ h₂
    obtain ⟨hsame, hconnections⟩ := (halways hw).2 9 fuel batch' pause' w' w₂ count count₂ h h₂
    exact ⟨hsame.symm.trans hcount, hconnections.symm⟩

end EchoLoad
