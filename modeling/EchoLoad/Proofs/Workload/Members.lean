import EchoLoad.Proofs.RunStep
import EchoLoad.Proofs.Workload.FixedPool
import Mathlib.Data.List.Perm.Subperm
/-!
Who is in a fixed pool. Ids are given in the order of the attempts, so a pool that has lost nobody
consists of the clients from 0 on, and wherever it comes back from it is put in the order of the ids.
Main statements: `Custody.ids_perm`, `Session.establish_numbered` and `World.joinAll_numbered`.
-/

namespace EchoLoad

/-- Clients with the ids from 0 on, in this order. -/
def Client.Numbered (clients : List Client) : Prop :=
  clients.map Client.id = List.range clients.length

variable {o : ClientOptions} {held clients : List Client} {w w' : World}

/-! ## The ids of clients in hand -/

namespace Custody

theorem nodup_ids (h : Custody o held w) : (held.map Client.id).Nodup := by
  rw [List.nodup_iff_count_le_one]
  intro n
  have hcount : (held.map Client.id).count n = (fiber Client.id n held).length := by
    rw [List.count, List.countP_map, List.countP_eq_length_filter]
    rfl
  have hhands : (fiber Client.id n held).length ≤ (w.view held n).hands.length := by
    rw [World.view, fiber_append, List.length_append]
    exact Nat.le_add_right _ _
  have hone : ∀ {v : View}, Placed o n v → v.hands.length ≤ 1 := by
    intro v hv
    cases hv <;> simp
  exact hcount.trans_le (hhands.trans (hone (h n)))

theorem hand_lt (h : Custody o held w) {c : Client} (hc : c ∈ held) :
    c.id < w.network.connections.length := by
  obtain ⟨conn, es, hv, -⟩ := h.at_hand hc
  have hconn : w.network.connections[c.id]? = some conn := congrArg View.connection hv
  exact (List.getElem?_eq_some_iff.1 hconn).1

/-- **Nobody is missing** if there are as many clients in hand as there were attempts. -/
theorem ids_perm (h : Custody o held w) (hlen : held.length = w.network.connections.length) :
    (held.map Client.id).Perm (List.range held.length) := by
  have hsub : held.map Client.id ⊆ List.range held.length := by
    intro n hn
    obtain ⟨c, hc, rfl⟩ := List.mem_map.1 hn
    rw [List.mem_range, hlen]
    exact h.hand_lt hc
  exact (List.subperm_of_subset h.nodup_ids hsub).perm_of_length_le (by simp)

end Custody

/-- Sorting puts consecutive ids in their order. -/
theorem Client.sortById_ids {n k : Nat} (h : (clients.map Client.id).Perm (List.range' n k)) :
    (Client.sortById clients).map Client.id = List.range' n k :=
  List.Perm.eq_of_pairwise (fun _ _ _ _ => Nat.le_antisymm) (Client.sortById_sorted clients)
    (List.pairwise_le_range' (s := n)) (((Client.sortById_perm clients).map _).trans h)

/-! ## Where a pool comes from -/

namespace World

variable {set : Setting} {fuel : Nat}

theorem connectBatch_numbered {size : Nat} {out : BatchOutcome} {seen : Option Failure}
    (hl : Ledger set.options { held } w) (hq : w.NoBatch) (hheld : Client.Numbered held)
    (hlen : w.network.connections.length = held.length)
    (h : w.connectBatch set fuel held.length size false = .ok (w', out, seen))
    (hclean : out.refusals = []) :
    Client.Numbered (held ++ out.connected) ∧
      w'.network.connections.length = (held ++ out.connected).length := by
  rw [← hlen] at h
  obtain ⟨hl1, -, -, hsize, hlen1, -⟩ := connectBatch_ledger hl hq h
  rw [hclean] at hsize
  have hsize : out.connected.length = size := hsize
  have hlen1 : w'.network.connections.length = (held ++ out.connected).length := by
    rw [hlen1, hlen, List.length_append, hsize]
  refine ⟨?_, hlen1⟩
  obtain ⟨⟨w1, seen1⟩, -, he⟩ := map_eq_ok.1 h
  cases he
  have hperm := hl1.custody.ids_perm hlen1.symm
  have hids : List.range (held ++ w1.handOver.2.connected).length =
      List.range held.length ++ List.range' held.length w1.handOver.2.connected.length := by
    rw [List.length_append, List.range_eq_range', List.range_eq_range', ← List.range'_append_1,
      Nat.zero_add]
  rw [List.map_append, hheld, hids, List.perm_append_left_iff] at hperm
  have hsorted : w1.handOver.2.connected.map Client.id =
      List.range' held.length w1.handOver.2.connected.length :=
    Client.sortById_ids (((Client.sortById_perm _).map _).symm.trans hperm)
  rw [Client.Numbered, List.map_append, hheld, hsorted, hids]

/-- **A pool that was established** has all clients from 0 on. -/
theorem growPool_numbered {target batch batches : Nat} {pool pool' : PoolOutcome}
    (hl : Ledger set.options { held := pool.clients } w) (hq : w.NoBatch)
    (hpool : Client.Numbered pool.clients)
    (hlen : w.network.connections.length = pool.clients.length)
    (h : growPool set fuel target batch batches pool w = .ok (w', pool'))
    (hnone : pool'.failure = none) :
    Client.Numbered pool'.clients ∧ w'.network.connections.length = pool'.clients.length := by
  refine growPool_rule (I := fun pool w => Ledger set.options { held := pool.clients } w ∧
      w.NoBatch ∧ Client.Numbered pool.clients ∧
      w.network.connections.length = pool.clients.length)
    (Q := fun w pool => pool.failure = none → Client.Numbered pool.clients ∧
      w.network.connections.length = pool.clients.length)
    ?_ ?_ ?_ ⟨hl, hq, hpool, hlen⟩ h hnone
  · exact fun _ _ ⟨_, _, hpool, hlen⟩ _ => ⟨hpool, hlen⟩
  · rintro pool w w1 size out seen ⟨hl, hq, hpool, hlen⟩ hc hclean
    have hnumbered := connectBatch_numbered hl hq hpool hlen hc hclean
    rw [← hlen] at hc
    obtain ⟨hl1, hq1, -, -, -, hseen⟩ := connectBatch_ledger hl hq hc
    obtain ⟨rfl, -⟩ := hseen rfl
    rw [hclean] at hl1
    exact ⟨hl1, hq1, hnumbered⟩
  · intro pool w w1 size out seen e rest _ _ _ hnone
    cases hnone

/-! ## Where a pool comes back from -/

theorem joinAll_length {limit : Option Duration} {failure : Option Failure}
    (h : w.joinAll set fuel limit = .ok (w', clients, failure)) :
    clients.length = w.workers.length := by
  have hwait : ∀ {w1 : World} {c : Crew}, w.attend set joining fuel
      { deadline := limit.map (w.now + ·) } = .ok (w1, c) → c.clients.length = w.workers.length := by
    intro w1 c ha
    refine attend_rule (I := fun c w1 => w1.workers.length + c.clients.length = w.workers.length)
      (Q := fun _ c => c.clients.length = w.workers.length) ?_ ?_ ?_ rfl ha
    · exact fun _ _ _ h => h
    · exact fun _ _ _ h hs => hs.workers_length.symm ▸ h
    · intro c w1 w2 b h1 hr
      cases hr with
      | alarm | mail => exact h1
      | @joined i k hk =>
        obtain ⟨hi, -⟩ := List.getElem?_eq_some_iff.1 hk
        have hlen := List.length_eraseIdx_of_lt hi
        simp only [joining, List.length_append, List.length_singleton]
        omega
      | ended he =>
        have hnone : w1.workers = [] := List.isEmpty_iff.1 he
        rwa [hnone, List.length_nil, Nat.zero_add] at h1
  obtain ⟨w1, c, failures, ha, rfl, -⟩ := joinAll_ok h
  exact (Client.sortById_perm _).length_eq.trans (hwait ha)

/-- **A pool comes back from its loops in the order of its ids**, if all of it is back. -/
theorem joinAll_numbered {limit : Option Duration} {failure : Option Failure}
    (hback : Custody set.options clients w')
    (h : w.joinAll set fuel limit = .ok (w', clients, failure))
    (hlen : clients.length = w.network.connections.length) :
    Client.Numbered clients ∧ w'.network.connections.length = clients.length := by
  have hlen' : w'.network.connections.length = clients.length :=
    (joinAll_connections h).trans hlen.symm
  refine ⟨?_, hlen'⟩
  have hperm := hback.ids_perm hlen'.symm
  obtain ⟨w1, c, failures, -, rfl, -⟩ := joinAll_ok h
  rw [List.range_eq_range'] at hperm
  rw [Client.Numbered, List.range_eq_range']
  exact Client.sortById_ids (((Client.sortById_perm _).map _).symm.trans hperm)

end World

theorem Session.establish_numbered {set : Setting} {fuel target batch joins : Nat} {output : Output}
    {s s' : Session} (hs : s.world.Fresh)
    (h : s.establish set fuel target batch output = .ok (s', .ok (clients, joins))) :
    Client.Numbered clients ∧ s'.world.network.connections.length = clients.length := by
  obtain ⟨⟨w, pool⟩, hp, h⟩ := bind_eq_ok.1 h
  have hgrown := World.growPool_numbered
    (show Ledger set.options { held := ({} : PoolOutcome).clients } _ from Ledger.of_fresh hs)
    hs.noBatch rfl (congrArg List.length hs.connections) hp
  dsimp only at h
  split at h
  · obtain ⟨⟨w1, n⟩, -, h⟩ := bind_eq_ok.1 h
    dsimp only at h
    split at h <;> cases h
  · next hnone =>
    split at h
    · cases h
    · next s1 hwrite =>
      have hworld := Session.writeSeries_world hwrite
      cases h
      rw [hworld]
      exact hgrown hnone

end EchoLoad
