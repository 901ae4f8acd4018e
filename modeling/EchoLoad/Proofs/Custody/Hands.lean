import EchoLoad.Proofs.Custody
/-!
What the controller does with clients: it dials and spawns them, takes them back from loops that
have ended, closes them, and arranges those in its hands.
-/

namespace EchoLoad.Custody

variable {o : ClientOptions} {held held' : List Client} {w w' : World} {c : Client}

theorem of_views (h : Custody o held w) (hv : ∀ n, w'.view held' n = w.view held n) :
    Custody o held' w' := fun n => hv n ▸ h n

theorem at_hand (h : Custody o held w) (hc : c ∈ held) :
    ∃ conn es, w.view held c.id = ⟨some conn, es, [], [], [c]⟩ ∧ AtRest c.id c conn es :=
  (h c.id).of_hand (mem_fiber_self Client.id (List.mem_append_left _ hc))

theorem others (h : Custody o (c :: held) w) :
    fiber Client.id c.id (held ++ w.connected) = [] := by
  obtain ⟨conn, es, hv, -⟩ := h.at_hand List.mem_cons_self
  have hh := congrArg View.hands hv
  simpa [World.view, fiber_cons] using hh

theorem perm (h : Custody o held w) (hp : held.Perm held') : Custody o held' w := by
  intro n
  have hf : (fiber Client.id n (held ++ w.connected)).Perm
      (fiber Client.id n (held' ++ w.connected)) := fiber_perm (hp.append_right _) n
  have hn := h n
  rcases he : fiber Client.id n (held ++ w.connected) with _ | ⟨c, cs⟩
  · rw [he] at hf
    have hv : w.view held' n = w.view held n := by
      simp only [World.view, he, List.nil_perm.1 hf]
    exact hv ▸ hn
  · obtain ⟨conn, es, hv, -⟩ := hn.of_hand (c := c) (by simp [World.view, he])
    have hs : c :: cs = [c] := he ▸ congrArg View.hands hv
    rw [he, hs] at hf
    have hv : w.view held' n = w.view held n := by
      simp only [World.view, he, hs, List.singleton_perm.1 hf]
    exact hv ▸ hn

theorem dial {set : Setting} (h : Custody set.options held w) :
    Custody set.options held (w.dial set w.network.connections.length) := by
  have hv := (h w.network.connections.length).of_none (by simp [World.view])
  obtain ⟨conn, hnet, -, hid, hl⟩ := Client.connect_new set.options w.now w.network
  let call := ({ id := w.network.connections.length } : Client).connect set.options w.now w.network
  have hdial : Dial.id ⟨call.client, call.ending⟩ = w.network.connections.length := hid
  simp only [World.view, View.mk.injEq] at hv
  obtain ⟨-, hp, hd, hf, hh⟩ := hv
  have hlen : ∀ m, m ≠ w.network.connections.length →
      (w.network.attempt conn).connections[m]? = w.network.connections[m]? := by
    intro m hm
    simp only [Network.attempt, List.getElem?_append]
    split
    · rfl
    · rw [List.getElem?_eq_none (by simp; omega), List.getElem?_eq_none (by omega)]
  refine h.update w.network.connections.length (fun m hm => (View.mk.injEq ..).mpr ?_) ?_
  · refine ⟨?_, fiber_cons_ne Event.client hm _, ?_, rfl, rfl⟩
    · exact (congrArg (·.connections[m]?) hnet).trans (hlen m hm)
    · rw [World.dial, fiber_append, fiber_cons_ne Dial.id (hdial.symm ▸ hm), fiber_nil,
        List.append_nil]
  · have hview : (w.dial set w.network.connections.length).view held w.network.connections.length =
        ⟨some conn, [.attempt w.network.connections.length], [⟨call.client, call.ending⟩], [],
          []⟩ := by
      refine (View.mk.injEq ..).mpr ⟨?_, ?_, ?_, hf, hh⟩
      · exact (congrArg (·.connections[w.network.connections.length]?) hnet).trans
          (Client.attempt_getElem? ..)
      · exact (fiber_cons_self Event.client _ _).trans (congrArg _ hp)
      · rw [World.dial, fiber_append]
        exact congrArg₂ _ hd ((fiber_cons ..).trans (if_pos hdial))
    rw [hview]
    exact .dialing hl

theorem spawn {set : Setting} {plan : EchoPlan} (h : Custody o (c :: held) w)
    (hc : c.isOpen = true) : Custody o held (w.spawn set plan c) := by
  obtain ⟨conn, es, hv, hr⟩ := h.at_hand List.mem_cons_self
  have hothers := h.others
  simp only [World.view, View.mk.injEq] at hv
  obtain ⟨hconn, hp, hd, hf, -⟩ := hv
  refine h.update c.id (fun m hm => (View.mk.injEq ..).mpr ?_) ?_
  · refine ⟨rfl, rfl, rfl, ?_, ?_⟩
    · rw [World.spawn, fiber_append, fiber_cons_ne Worker.id hm, fiber_nil, List.append_nil]
    · exact (fiber_cons_ne Client.id hm _).symm
  · have hview : (w.spawn set plan c).view held c.id =
        ⟨some conn, es, [], [w.newLoop set plan c], []⟩ := by
      refine (View.mk.injEq ..).mpr ⟨hconn, hp, hd, ?_, hothers⟩
      rw [World.spawn, fiber_append, hf]
      exact fiber_cons_self Worker.id _ []
    rw [hview]
    cases hr with
    | clean rounds hcl => exact .working (.ready rounds rfl hcl)
    | failed rounds e hg => rw [hg.isOpen] at hc; cases hc

theorem join (h : Custody o held w) {i : Nat} {k : Worker} (hk : w.workers[i]? = some k)
    (hs : k.stage = .done) :
    Custody o (held ++ [k.client]) { w with workers := w.workers.eraseIdx i } := by
  obtain ⟨conn, es, hv, hwk⟩ := h.at_worker hk
  simp only [World.view, View.mk.injEq] at hv
  obtain ⟨hconn, hp, hd, hf, hh⟩ := hv
  have hback : ∀ m, fiber Client.id m (held ++ [k.client] ++ w.connected) =
      fiber Client.id m held ++ (fiber Client.id m [k.client] ++ fiber Client.id m w.connected) := by
    intro m
    rw [fiber_append, fiber_append, List.append_assoc]
  refine h.update k.id (fun m hm => (View.mk.injEq ..).mpr ?_) ?_
  · refine ⟨rfl, rfl, rfl, fiber_eraseIdx_ne hk hm, ?_⟩
    rw [hback, fiber_cons_ne Client.id hm, fiber_nil, List.nil_append, fiber_append]
  · have hview : ({ w with workers := w.workers.eraseIdx i } : World).view (held ++ [k.client]) k.id =
        ⟨some conn, es, [], [], [k.client]⟩ := by
      refine (View.mk.injEq ..).mpr ⟨hconn, hp, hd, fiber_eraseIdx_self hk hf, ?_⟩
      rw [fiber_append, List.append_eq_nil_iff] at hh
      rw [hback, hh.1, hh.2, List.append_nil, List.nil_append]
      exact fiber_cons_self Client.id k.client []
    rw [hview]
    exact .held (hwk.of_done hs)

theorem close (h : Custody o (c :: held) w) : Custody o held (w.close c) := by
  obtain ⟨conn, es, hv, hr⟩ := h.at_hand List.mem_cons_self
  have hothers := h.others
  simp only [World.view, View.mk.injEq] at hv
  obtain ⟨hconn, hp, hd, hf, -⟩ := hv
  cases hr with
  | clean rounds hcl =>
    have hw : w.close c = { w.note (.closed c.id) with
        network := w.network.modify c.id fun conn => conn.shutdown.1 } := by
      simp only [World.close, Client.close, hcl.isOpen, hcl.stream, if_true]
    rw [hw]
    refine h.update c.id (fun m hm => (View.mk.injEq ..).mpr ?_) ?_
    · exact ⟨List.getElem?_modify_ne _ _ (Ne.symm hm), fiber_cons_ne Event.client hm _, rfl, rfl,
        (fiber_cons_ne Client.id hm _).symm⟩
    · have hview : ({ w.note (.closed c.id) with
          network := w.network.modify c.id fun conn => conn.shutdown.1 } : World).view held c.id =
          ⟨some conn.shutdown.1, .closed c.id :: lived c.id rounds, [], [], []⟩ := by
        refine (View.mk.injEq ..).mpr ⟨?_, ?_, hd, hf, hothers⟩
        · exact (List.getElem?_modify_eq ..).trans (congrArg _ hconn)
        · exact (fiber_cons_self Event.client _ _).trans (congrArg _ hp)
      rw [hview]
      exact .past (.closed rounds rfl)
  | failed rounds e hg =>
    have hw : w.close c = w := by simp [World.close, hg.isOpen]
    rw [hw]
    refine h.update c.id (fun m hm => (View.mk.injEq ..).mpr ?_) ?_
    · exact ⟨rfl, rfl, rfl, rfl, (fiber_cons_ne Client.id hm _).symm⟩
    · have hview : w.view held c.id = ⟨some conn,
          .roundEnded c.id (some e) :: .roundStarted c.id :: lived c.id rounds, [], [], []⟩ :=
        (View.mk.injEq ..).mpr ⟨hconn, hp, hd, hf, hothers⟩
      rw [hview]
      exact .past (.failed rounds e hg.fate)

theorem handOver (h : Custody o held w) :
    Custody o (held ++ w.handOver.2.connected) w.handOver.1 := by
  have hc : Custody o (held ++ w.connected) w.handOver.1 := by
    refine h.of_views fun n => (View.mk.injEq ..).mpr ⟨rfl, rfl, rfl, rfl, ?_⟩
    exact congrArg _ (List.append_nil _)
  exact hc.perm ((List.mergeSort_perm ..).symm.append_left _)

theorem resetCounters (h : Custody o held w) : Custody o (held.map Client.resetCounters) w := by
  have hreset : ∀ n, fiber Client.id n (held.map Client.resetCounters) =
      (fiber Client.id n held).map Client.resetCounters := fun n => List.filter_map ..
  intro n
  rcases he : fiber Client.id n held with _ | ⟨c, cs⟩
  · have hv : w.view (held.map Client.resetCounters) n = w.view held n := by
      simp only [World.view, fiber_append, hreset, he, List.map_nil]
    exact hv ▸ h n
  · have hmem : c ∈ fiber Client.id n held := he ▸ List.mem_cons_self
    obtain ⟨hc, rfl⟩ := mem_fiber.1 hmem
    obtain ⟨conn, es, hv, hr⟩ := h.at_hand hc
    simp only [World.view, View.mk.injEq, fiber_append, he] at hv
    obtain ⟨hconn, hp, hd, hf, hh⟩ := hv
    obtain ⟨rfl, hn⟩ : cs = [] ∧ fiber Client.id c.id w.connected = [] := by
      simpa using hh
    have hv : w.view (held.map Client.resetCounters) c.id =
        ⟨some conn, es, [], [], [c.resetCounters]⟩ := by
      simp only [World.view, fiber_append, hreset, he, hn, hconn, hp, hd, hf]
      rfl
    rw [hv]
    cases hr with
    | clean rounds hcl => exact .held (.clean rounds ⟨hcl.isOpen, hcl.stream, hcl.fate⟩)
    | failed rounds e hg => exact .held (.failed rounds e ⟨hg.isOpen, hg.stream, hg.fate⟩)

theorem of_fresh (h : w.Fresh) : Custody o [] w := by
  intro n
  have hv : w.view [] n = ⟨none, [], [], [], []⟩ := by
    simp [World.view, World.events, h.connections, h.dials, h.connected, h.workers, h.journal]
  rw [hv]
  exact .absent

end EchoLoad.Custody
