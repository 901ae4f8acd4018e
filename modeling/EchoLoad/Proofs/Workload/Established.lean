import EchoLoad.Proofs.Lines
import EchoLoad.Proofs.Pool
/-!
A pool and its join samples. Every client that connects leaves one, so a pool has as many clients
as join latencies are written down, also if it could not be established. Main statements:
`growPool_joins` and `Session.establish_holds`.
-/

namespace EchoLoad

namespace World

variable {set : Setting} {fuel : Nat} {w w' : World}

def joinSamples (w : World) : Nat := w.sink.collect.joins.length

theorem InternalStep.joinSamples (hs : InternalStep set w w') :
    w'.joinSamples + w.connected.length = w.joinSamples + w'.connected.length := by
  cases hs with
  | signal hsignal =>
    rw [interrupted_eq hsignal]
    rfl
  | @arrived i c t latency =>
    have hjoin : (w.arrived i c latency).joinSamples = w.joinSamples + 1 :=
      (congrArg List.length (Sink.collect_record_join ..)).trans List.length_append
    have hconnected : (w.arrived i c latency).connected.length = w.connected.length + 1 :=
      List.length_append
    omega
  | @echoed i k t latency =>
    have hmessage : (w.echoed i k latency).joinSamples = w.joinSamples :=
      congrArg List.length (Sink.collect_record_message ..)
    exact congrArg (· + w.connected.length) hmessage
  | _ => rfl

theorem connectBatch_joins {first size : Nat} {watchful : Bool} {out : BatchOutcome}
    {seen : Option Failure} (hw : w.connected = [])
    (h : w.connectBatch set fuel first size watchful = .ok (w', out, seen)) :
    w'.connected = [] ∧ w'.joinSamples = w.joinSamples + out.connected.length := by
  obtain ⟨⟨w1, seen1⟩, ha, he⟩ := map_eq_ok.1 h
  cases he
  have hstart : (w.dialBatch set first size).joinSamples =
      w.joinSamples + (w.dialBatch set first size).connected.length := by
    obtain ⟨-, hc, -⟩ := dialBatch_frame set w first size
    rw [hc, hw, joinSamples, dialBatch_sink]
    rfl
  have hwait : w1.joinSamples = w.joinSamples + w1.connected.length := by
    refine attend_rule (I := fun _ w1 => w1.joinSamples = w.joinSamples + w1.connected.length)
      (Q := fun w1 _ => w1.joinSamples = w.joinSamples + w1.connected.length)
      (fun _ _ _ h => h) ?_ ?_ hstart ha
    · intro _ w1 w2 h1 hs
      have h2 := hs.joinSamples
      omega
    · intro s w1 w2 b h1 hr
      have h2 : w2.joinSamples = w.joinSamples + w2.connected.length := by
        cases hr <;> exact h1
      simp only [connecting]
      split <;> next he => split at he <;> cases he <;> exact h2
  have hsort : (Client.sortById w1.connected).length = w1.connected.length :=
    (List.mergeSort_perm ..).length_eq
  exact ⟨rfl, hwait.trans (congrArg _ hsort.symm)⟩

/-- **A pool has one join sample for each client**, also if it could not be established. -/
theorem growPool_joins {target batch batches : Nat} {pool pool' : PoolOutcome}
    (hw : w.connected = []) (hjoins : w.joinSamples = pool.clients.length)
    (h : growPool set fuel target batch batches pool w = .ok (w', pool')) :
    w'.joinSamples = pool'.clients.length := by
  have hbatch {pool : PoolOutcome} {w w1 : World} {size : Nat} {out : BatchOutcome}
      {seen : Option Failure} (hw : w.connected = [] ∧ w.joinSamples = pool.clients.length)
      (hc : w.connectBatch set fuel pool.clients.length size false = .ok (w1, out, seen)) :
      w1.connected = [] ∧ w1.joinSamples = (pool.clients ++ out.connected).length := by
    obtain ⟨hconnected, hjoins⟩ := connectBatch_joins hw.1 hc
    exact ⟨hconnected, by rw [hjoins, hw.2, List.length_append]⟩
  exact growPool_rule (I := fun pool w => w.connected = [] ∧ w.joinSamples = pool.clients.length)
    (Q := fun w pool => w.joinSamples = pool.clients.length) (fun _ _ hw => hw.2)
    (fun _ _ _ _ _ _ hw hc _ => hbatch hw hc)
    (fun _ _ _ _ _ _ _ _ hw hc _ => (hbatch hw hc).2) ⟨hw, hjoins⟩ h

end World

/-- What the files hold after a workload with this result, where a report makes `told` true. If the
pool failed there is a join latency for each client that connected. -/
def Output.Holds {ρ : Type} (o : Output) (store : Store) (told : ρ → Prop) :
    Except RunError ρ → Prop
  | .ok r => told r
  | .error (.pool connected _) => o.Lines "join-lat" connected store
  | .error (.output _) => True
  | .error (.echo _ _) => False

namespace Session

variable {set : Setting} {fuel clients batch : Nat} {o : Output} {s s' : Session}

theorem lines_of_writeSeries {series : String} {samples : List Duration}
    (hseries : Output.Plain series) (h : s.writeSeries o series samples = .ok s') :
    o.Lines series samples.length s'.store := by
  obtain ⟨store, hstore, rfl⟩ := map_eq_ok.1 h
  have hlines := Output.lines_of_writeSeries hseries hstore
  rwa [List.length_map] at hlines

/-- **What a pool leaves in the file of join latencies**: one line for each client that connected,
if the file could be written. -/
theorem establish_holds (hw : s.world.Fresh) {result : Except RunError (List Client × Nat)}
    (h : s.establish set fuel clients batch o = .ok (s', result)) :
    o.Holds s'.store (fun pool => o.Lines "join-lat" pool.2 s'.store ∧ pool.2 = pool.1.length)
      result := by
  obtain ⟨⟨w, pool⟩, hp, h⟩ := bind_eq_ok.1 h
  have hjoins : w.joinSamples = pool.clients.length := by
    refine World.growPool_joins hw.connected ?_ hp
    rw [World.joinSamples, hw.sink]
    rfl
  dsimp only at h
  split at h
  · rw [World.closeAll_zero] at h
    have htaken : (w.closeBatch pool.clients).1.takeJoins.1.length = pool.clients.length := by
      obtain ⟨network, journal, he⟩ := World.closeBatch_frame pool.clients w
      rw [he]
      exact hjoins
    dsimp only [bind, Except.bind] at h
    split at h
    · cases h
      trivial
    · next s1 hwrite =>
      cases h
      have hlines := lines_of_writeSeries (by decide) hwrite
      rwa [htaken] at hlines
  · have htaken : w.takeJoins.1.length = pool.clients.length := hjoins
    split at h
    · cases h
      trivial
    · next s1 hwrite =>
      cases h
      exact ⟨lines_of_writeSeries (by decide) hwrite, htaken⟩

end Session

end EchoLoad
