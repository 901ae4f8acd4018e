import EchoLoad.Proofs.History
import EchoLoad.Proofs.InternalStep
/-!
Connections that no loop holds. Whatever happens while a controller waits leaves them alone, and
nobody is closed meanwhile. Main statement: `InternalStep.onlyLoopsChange`.
-/

namespace EchoLoad

namespace Client

variable {c : Client} {n : Nat}

theorem exchange_elsewhere (o : ClientOptions) (now : Duration) (payload : Bytes) (net : Network)
    (hne : c.stream ≠ some n) :
    (c.exchange o now payload net).network.connections[n]? = net.connections[n]? ∧
      (c.exchange o now payload net).client.stream ≠ some n := by
  unfold exchange
  split
  · exact ⟨rfl, nofun⟩
  · next m conn hheld =>
    obtain ⟨m', hstream, hconn⟩ := Option.bind_eq_some_iff.1 hheld
    obtain ⟨_, -, he⟩ := Option.map_eq_some_iff.1 hconn
    cases he
    have hm : m ≠ n := fun h => hne (h ▸ hstream)
    split
    · exact ⟨List.getElem?_modify_ne _ _ hm, nofun⟩
    · exact ⟨List.getElem?_modify_ne _ _ hm, hne⟩

theorem echoRound_elsewhere (o : ClientOptions) (now : Duration) (payload : Bytes) (net : Network)
    (hne : c.stream ≠ some n) :
    (c.echoRound o now payload net).network.connections[n]? = net.connections[n]? ∧
      (c.echoRound o now payload net).client.stream ≠ some n := by
  have hexchange := exchange_elsewhere (c := { c with state := .active }) o now payload net hne
  unfold echoRound
  split
  · dsimp only
    split <;> exact hexchange
  · exact ⟨rfl, hne⟩

end Client

namespace World

def NotInLoop (n : Nat) (w : World) : Prop := ∀ k ∈ w.workers, k.client.stream ≠ some n

/-- Nobody was closed between `w` and `w'`, and no connection has changed but those that loops
hold. -/
structure OnlyLoopsChange (w w' : World) : Prop where
  notInLoop : ∀ n, w.NotInLoop n → w'.NotInLoop n
  connections : ∀ n, w.NotInLoop n → w'.network.connections[n]? = w.network.connections[n]?
  journal : ∃ es, w'.journal = es ++ w.journal ∧ ∀ x ∈ es, x.2.isClosing = false

variable {set : Setting} {w w' w'' : World} {n : Nat} {t : Duration}

theorem NotInLoop.set_worker {i : Nat} {k : Worker} (h : w.NotInLoop n) (hk : k.client.stream ≠ some n)
    (hworkers : w'.workers = w.workers.set i k) : w'.NotInLoop n := by
  intro k' hk'
  rw [hworkers] at hk'
  rcases List.mem_or_eq_of_mem_set hk' with hk' | rfl
  · exact h k' hk'
  · exact hk

namespace OnlyLoopsChange

theorem refl (w : World) : w.OnlyLoopsChange w := ⟨fun _ h => h, fun _ _ => rfl, [], rfl, by simp⟩

theorem trans (h : w.OnlyLoopsChange w') (h' : w'.OnlyLoopsChange w'') : w.OnlyLoopsChange w'' := by
  obtain ⟨es, hes, hnone⟩ := h.journal
  obtain ⟨es', hes', hnone'⟩ := h'.journal
  refine ⟨fun n hn => h'.notInLoop n (h.notInLoop n hn),
    fun n hn => (h'.connections n (h.notInLoop n hn)).trans (h.connections n hn),
    es' ++ es, by rw [hes', hes, List.append_assoc], fun x hx => ?_⟩
  rcases List.mem_append.1 hx with hx | hx
  · exact hnone' x hx
  · exact hnone x hx

theorem of_tick (h : (w.tick t).OnlyLoopsChange w') :
    w.OnlyLoopsChange w' := ⟨h.notInLoop, h.connections, h.journal⟩

end OnlyLoopsChange

/-! ## Waiting -/

theorem InternalStep.now (hs : InternalStep set w w') : w'.now = w.now := by
  cases hs with
  | signal hsignal => rw [interrupted_eq hsignal]
  | _ => rfl

/-- **While a controller waits nobody is closed.** -/
theorem InternalStep.onlyLoopsChange (hs : InternalStep set w w') : w.OnlyLoopsChange w' := by
  have hworker : ∀ {i : Nat} {k : Worker}, w.workers[i]? = some k →
      ∀ n, w.NotInLoop n → k.client.stream ≠ some n :=
    fun hk n hn => hn _ (List.mem_of_getElem? hk)
  cases hs with
  | signal hsignal =>
    rw [interrupted_eq hsignal]
    exact ⟨fun _ h => h, fun _ _ => rfl, [], rfl, by simp⟩
  | arrived | declined =>
    exact ⟨fun _ h => h, fun _ _ => rfl, [_], rfl, by simp [Event.isClosing]⟩
  | @echoed i k t latency hk =>
    exact ⟨fun n hn => hn.set_worker (k := k.advance) (hworker hk n hn) rfl,
      fun _ _ => rfl, [_], rfl, by simp [Event.isClosing]⟩
  | @broken i k t e hk =>
    exact ⟨fun n hn => hn.set_worker (k := { k with stage := .done }) (hworker hk n hn) rfl,
      fun _ _ => rfl, [_], rfl, by simp [Event.isClosing]⟩
  | @start i length k source hk =>
    have hround := fun n hn => Client.echoRound_elsewhere set.options w.now
      (Payload.fill length source).1 w.network (hworker hk n hn)
    exact ⟨fun n hn => hn.set_worker (hround n hn).2 rfl, fun n hn => (hround n hn).1, [_], rfl,
      by simp [Event.isClosing]⟩
  | @retire i k hk =>
    exact ⟨fun n hn => hn.set_worker (k := { k with stage := .done }) (hworker hk n hn) rfl,
      fun _ _ => rfl, [], rfl, by simp⟩

theorem InternalSteps.onlyLoopsChange (h : InternalSteps set w w') :
    w.OnlyLoopsChange w' ∧ w'.now = w.now := by
  induction h with
  | refl => exact ⟨.refl _, rfl⟩
  | tail _ hs ih => exact ⟨ih.1.trans hs.onlyLoopsChange, hs.now.trans ih.2⟩

end World

end EchoLoad
