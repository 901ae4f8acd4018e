import EchoLoad.Proofs.NotInLoop
import EchoLoad.Proofs.Deadline
import EchoLoad.Proofs.Idle
import EchoLoad.Proofs.Shift
import EchoLoad.Random.SplitMix
/-!
The members of a batch do not affect each other. Each attempt goes as it would go if its client
connected alone; the batch puts together what comes of them, whatever the order in which they end.
Main statement: `connectBatch_contract`.
-/

namespace EchoLoad

def Client.onStream (n : Nat) (c : Client) : Client := { c with stream := c.stream.map fun _ => n }

/-- A client connects alone, and there is no other connection. -/
def Client.alone (o : ClientOptions) (now : Duration) (id : Nat) (p : Peer) : Call :=
  ({ id } : Client).connect o now { rest := p }

namespace Dial

def joined? (d : Dial) : Option (Client × Duration) :=
  match d.ending with
  | some (_, .ok latency) => some (d.client, latency)
  | _ => none

def refusal? (d : Dial) : Option ClientError :=
  match d.ending with
  | some (_, .error e) => some e
  | _ => none

def onStream (n : Nat) (d : Dial) : Dial := { d with client := d.client.onStream n }

theorem joined?_onStream (n : Nat) (d : Dial) :
    (d.onStream n).joined? = d.joined?.map fun x => (x.1.onStream n, x.2) := by
  rcases d with ⟨c, _ | ⟨t, _ | _⟩⟩ <;> rfl

theorem sample?_eq (d : Dial) : d.sample? = d.joined?.map Prod.snd := by
  rcases d with ⟨c, _ | ⟨t, _ | _⟩⟩ <;> rfl

theorem joined?_client {d : Dial} {x : Client × Duration} (h : d.joined? = some x) :
    x.1 = d.client := by
  unfold joined? at h
  split at h <;> cases h
  rfl

end Dial

/-! ## One attempt -/

theorem Client.connect_joined {o : ClientOptions} {now t latency : Duration} {id : Nat}
    {net : Network} (h : (({ id } : Client).connect o now net).ending = some (t, .ok latency)) :
    (({ id } : Client).connect o now net).client =
      { id, state := .connected, stream := some net.connections.length } := by
  obtain ⟨d, e, he⟩ : ∃ d e,
      establish o.connectTimeout (net.peer net.connections.length) = (d, e) := ⟨_, _, rfl⟩
  simp only [connect, ne_eq, not_true_eq_false, if_false, he] at h ⊢
  cases e with
  | never | timedOut | refused => cases h
  | connected =>
    simp only at h ⊢
    cases hx : (net.peer net.connections.length).optionError with
    | some x =>
      rw [hx] at h
      cases h
    | none =>
      cases hh : o.handshake with
      | none => rfl
      | some hello =>
        rw [hx, hh] at h
        obtain ⟨-, hending, hclient⟩ := exchange_last o
          { id, state := .connected, stream := some net.connections.length } (now + d) hello net
          { peer := net.peer net.connections.length, fate := .open } rfl
        obtain ⟨⟨t', r⟩, hexchange, hr⟩ := Option.map_eq_some_iff.1 h
        have hkept := hclient
        rw [← hending, hexchange] at hkept
        cases r with
        | error e => cases hr
        | ok latency => exact hkept

/-- **An attempt goes as it would go alone**, whatever connections there are. -/
theorem Client.connect_alone (o : ClientOptions) (now : Duration) (id : Nat) (net : Network) :
    let call := ({ id } : Client).connect o now net
    let solo := Client.alone o now id (net.peer net.connections.length)
    ∃ conn, solo.network.connections = [conn] ∧ call.network = net.attempt conn ∧
      call.client = solo.client.onStream net.connections.length ∧ call.ending = solo.ending := by
  intro call solo
  generalize hp : net.peer net.connections.length = p at solo
  have hrest : ({ rest := p } : Network).peer 0 = p := rfl
  obtain ⟨d, e, he⟩ : ∃ d e, establish o.connectTimeout p = (d, e) := ⟨_, _, rfl⟩
  simp only [call, solo, alone, connect, ne_eq, not_true_eq_false, if_false, hp, hrest, he,
    List.length_nil]
  cases e with
  | never | timedOut | refused => exact ⟨_, rfl, rfl, rfl, rfl⟩
  | connected =>
    simp only
    cases p.optionError with
    | some x => exact ⟨_, rfl, rfl, rfl, rfl⟩
    | none =>
      cases o.handshake with
      | none => exact ⟨_, rfl, rfl, rfl, rfl⟩
      | some hello =>
        let c (n : Nat) : Client := { id, state := .connected, stream := some n }
        obtain ⟨hnet, hending, hclient⟩ := exchange_last o (c net.connections.length) (now + d)
          hello net { peer := p, fate := .open } rfl
        obtain ⟨hnet', hending', hclient'⟩ := exchange_last o (c 0) (now + d) hello
          { rest := p } { peer := p, fate := .open } rfl
        have hkept : ∀ n ending, ((c 0).kept ending).onStream n = (c n).kept ending := by
          rintro n (_ | ⟨t, _ | _⟩) <;> rfl
        refine ⟨_, congrArg Network.connections hnet', hnet, ?_, ?_⟩
        · rw [hclient, hclient', hkept]
        · exact congrArg (Option.map fun x => (x.1, x.2.map fun _ => d))
            (hending.trans hending'.symm)

namespace World

variable {set : Setting} {w w' : World} {fuel first size : Nat} {watchful : Bool}
  {out : BatchOutcome} {seen : Option Failure}

/-! ## The attempts of a batch -/

/-- Member `i` of a batch that begins now, alone. -/
def alone (o : ClientOptions) (w : World) (first i : Nat) : Call :=
  Client.alone o w.now (first + i) (w.network.peer (w.network.connections.length + i))

def member (o : ClientOptions) (w : World) (first i : Nat) : Dial :=
  ⟨(w.alone o first i).client, (w.alone o first i).ending⟩

theorem member_id (o : ClientOptions) (w : World) (first i : Nat) :
    (w.member o first i).client.id = first + i :=
  Client.connect_id ..

/-- A batch begins with the attempts of its members, each on a connection of its own. -/
theorem dialBatch_members (set : Setting) (w : World) (first size : Nat) :
    let n := w.network.connections.length
    let w' := w.dialBatch set first size
    w'.dials = w.dials ++
        (List.range size).map (fun i => (w.member set.options first i).onStream (n + i)) ∧
      (∀ i < size, w'.network.connections[n + i]? =
        (w.alone set.options first i).network.connections[0]?) ∧
      w'.network.connections.length = n + size ∧ w'.network.peer = w.network.peer ∧
      w'.now = w.now := by
  intro n w'
  induction size with
  | zero => simp [w', dialBatch, n]
  | succ size ih =>
    obtain ⟨hdials, hconnections, hlength, hpeer, hnow⟩ := ih
    let w₁ := w.dialBatch set first size
    have hnext : w' = w₁.dial set (first + size) := by
      simp only [w', w₁, dialBatch, List.range'_1_concat, List.foldl_concat]
    -- the attempt meets the peer that the member would meet alone
    have halone : Client.alone set.options w₁.now (first + size)
        (w₁.network.peer w₁.network.connections.length) = w.alone set.options first size := by
      rw [alone, ← hnow, ← hpeer, ← hlength]
    obtain ⟨conn, hsolo, hnet, hclient, hending⟩ :=
      Client.connect_alone set.options w₁.now (first + size) w₁.network
    rw [halone] at hsolo hclient hending
    rw [hlength] at hclient
    have hnet' : w'.network = w₁.network.attempt conn := by
      rw [hnext]
      exact hnet
    have hdials' : w'.dials =
        w₁.dials ++ [(w.member set.options first size).onStream (n + size)] := by
      rw [hnext, World.dial]
      dsimp only
      rw [hclient, hending]
      rfl
    refine ⟨?_, fun i hi => ?_, ?_, ?_, ?_⟩
    · rw [hdials', hdials, List.range_succ, List.map_append, List.append_assoc]
      rfl
    · rw [hnet']
      rcases Nat.lt_succ_iff_lt_or_eq.1 hi with hi | rfl
      · have hlt : n + i < w₁.network.connections.length := by
          rw [hlength]
          exact Nat.add_lt_add_left hi n
        rw [← hconnections i hi]
        exact List.getElem?_append_left hlt
      · rw [hsolo, ← hlength]
        exact Client.attempt_getElem? ..
    · rw [hnet', ← Nat.add_assoc, ← hlength]
      exact List.length_append
    · rw [hnet', ← hpeer]
      rfl
    · rw [hnext, ← hnow]
      rfl

/-! ## The end of a batch -/

/-- What has come of the attempts that were in flight in `w₀`, if those in `gone` have ended, in this
order. -/
structure Gathers (w₀ : World) (gone : List Dial) (w : World) : Prop where
  dials : (gone ++ w.dials).Perm w₀.dials
  connected : w.connected = gone.filterMap fun d => d.joined?.map Prod.fst
  refusals : w.refusals = gone.filterMap Dial.refusal?

/-- An attempt that ends is one more that has ended. -/
theorem InternalStep.gathers {w₀ : World} {gone : List Dial} (hs : InternalStep set w w')
    (h : w₀.Gathers gone w) : ∃ gone', w₀.Gathers gone' w' := by
  have hends : ∀ {i : Nat} {d : Dial}, w.dials[i]? = some d →
      (gone ++ [d] ++ w.dials.eraseIdx i).Perm w₀.dials := by
    intro i d hd
    obtain ⟨hi, rfl⟩ := List.getElem?_eq_some_iff.1 hd
    rw [List.append_assoc]
    exact ((List.getElem_cons_eraseIdx_perm hi).append_left gone).trans h.dials
  cases hs with
  | signal hsignal =>
    rw [interrupted_eq hsignal]
    exact ⟨gone, h.dials, h.connected, h.refusals⟩
  | arrived hd =>
    refine ⟨_, hends hd, ?_, ?_⟩
    · rw [List.filterMap_append, ← h.connected]
      rfl
    · rw [List.filterMap_append, ← h.refusals]
      exact (List.append_nil _).symm
  | declined hd =>
    refine ⟨_, hends hd, ?_, ?_⟩
    · rw [List.filterMap_append, ← h.connected]
      exact (List.append_nil _).symm
    · rw [List.filterMap_append, ← h.refusals]
      rfl
  | echoed | broken | start | retire => exact ⟨gone, h.dials, h.connected, h.refusals⟩

/-- **A batch that is over** has gathered what came of its attempts, and of nothing else. -/
theorem connectBatch_gathers (hq : w.NoBatch)
    (h : w.connectBatch set fuel first size watchful = .ok (w', out, seen)) :
    let w₀ := w.dialBatch set first size
    ∃ gone : List Dial, gone.Perm w₀.dials ∧
      out.connected = Client.sortById (gone.filterMap fun d => d.joined?.map Prod.fst) ∧
      out.refusals = gone.filterMap Dial.refusal? ∧
      out.connected.length + out.refusals.length = size ∧ w₀.OnlyLoopsChange w' ∧ w'.NoBatch := by
  intro w₀
  obtain ⟨⟨w₁, seen₁⟩, hwait, he⟩ := map_eq_ok.1 h
  cases he
  obtain ⟨hdials, hconnected, hrefusals, -, -⟩ := dialBatch_frame set w first size
  let I (w₁ : World) : Prop := (∃ gone, w₀.Gathers gone w₁) ∧
    w₁.connected.length + w₁.refusals.length + w₁.dials.length = size ∧ w₀.OnlyLoopsChange w₁
  have hstart : I w₀ := by
    refine ⟨⟨[], .refl _, ?_, ?_⟩, ?_, .refl w₀⟩
    · exact hconnected.trans hq.connected
    · exact hrefusals.trans hq.refusals
    · rw [hconnected, hrefusals, hdials, hq.connected, hq.refusals, hq.dials]
      simp
  have hend : I w₁ ∧ w₁.dials = [] := by
    refine attend_rule (I := fun _ => I) (Q := fun w₁ _ => I w₁ ∧ w₁.dials = []) ?_ ?_ ?_ hstart
      hwait
    · rintro - w₁ t ⟨⟨gone, hgone⟩, hlen, hpass⟩
      exact ⟨⟨gone, hgone.dials, hgone.connected, hgone.refusals⟩, hlen,
        hpass.notInLoop, hpass.connections, hpass.journal⟩
    · rintro - w₁ w₂ ⟨⟨gone, hgone⟩, hlen, hpass⟩ hs
      exact ⟨hs.gathers hgone, hs.attempts_length.trans hlen, hpass.trans hs.onlyLoopsChange⟩
    · rintro s w₁ w₂ b ⟨⟨gone, hgone⟩, hlen, hpass⟩ hr
      cases hr with
      | alarm ha => cases ha
      | joined _ _ hj => cases hj
      | mail =>
        exact ⟨⟨gone, hgone.dials, hgone.connected, hgone.refusals⟩, hlen,
          hpass.notInLoop, hpass.connections, hpass.journal⟩
      | ended he => exact ⟨⟨⟨gone, hgone⟩, hlen, hpass⟩, List.isEmpty_iff.1 he⟩
  obtain ⟨⟨⟨gone, hgone⟩, hlen, hpass⟩, hnone⟩ := hend
  have hdials := hgone.dials
  rw [hnone, List.append_nil] at hdials
  rw [hnone, List.length_nil, Nat.add_zero] at hlen
  refine ⟨gone, hdials, congrArg Client.sortById hgone.connected, hgone.refusals, ?_,
    ⟨hpass.notInLoop, hpass.connections, hpass.journal⟩, hnone, rfl, rfl⟩
  rw [← hlen]
  exact congrArg (· + w₁.refusals.length) (Client.sortById_perm w₁.connected).length_eq

end World

theorem Client.sortById_eq {clients sorted : List Client} (hperm : clients.Perm sorted)
    (hsorted : (sorted.map Client.id).Pairwise (· < ·)) : Client.sortById clients = sorted := by
  have hall : (Client.sortById clients).Perm sorted := (Client.sortById_perm clients).trans hperm
  have hnodup : (sorted.map Client.id).Nodup := hsorted.imp Nat.ne_of_lt
  have hby : (Client.sortById clients).Pairwise fun a b => a.id ≤ b.id :=
    List.pairwise_map.1 (Client.sortById_sorted clients)
  have hby' : sorted.Pairwise fun a b => a.id ≤ b.id :=
    (List.pairwise_map.1 hsorted).imp Nat.le_of_lt
  exact List.Perm.eq_of_pairwise (fun a b ha hb hab hba => List.inj_on_of_nodup_map hnodup
    (hall.mem_iff.1 ha) hb (Nat.le_antisymm hab hba)) hby hby' hall

namespace World

variable {set : Setting} {o : ClientOptions} {w w' : World} {fuel first size : Nat}
  {watchful : Bool} {out : BatchOutcome} {seen : Option Failure}

/-- A batch came to what its members come to alone. -/
structure GoesAlone (o : ClientOptions) (w : World) (first size : Nat) (w' : World)
    (out : BatchOutcome) : Prop where
  /-- Who connects alone has connected, and is as it would be alone. -/
  connected : out.connected = (List.range size).filterMap fun i =>
    (w.member o first i).joined?.map fun x => x.1.onStream (w.network.connections.length + i)
  increasing : (out.connected.map Client.id).Pairwise (· < ·)
  /-- Who fails alone has failed for the same reason. -/
  refusals : out.refusals.Perm ((List.range size).filterMap fun i => (w.member o first i).refusal?)
  count : out.connected.length + out.refusals.length = size
  /-- There is a join sample for each client that has connected, and no other. -/
  joins : w'.sink.collect.joins.Perm (w.sink.collect.joins ++
    (List.range size).filterMap fun i => (w.member o first i).joined?.map Prod.snd)
  /-- The connection of a member looks as it would alone. -/
  connections : ∀ i < size, w.NotInLoop (w.network.connections.length + i) →
    w'.network.connections[w.network.connections.length + i]? =
      (w.alone o first i).network.connections[0]?

theorem joiner_id {i n : Nat} {c : Client}
    (h : ((w.member o first i).joined?.map fun x => x.1.onStream n) = some c) :
    c.id = first + i := by
  obtain ⟨x, hx, rfl⟩ := Option.map_eq_some_iff.1 h
  exact (congrArg Client.id (Dial.joined?_client hx)).trans (member_id ..)

theorem joiners_increasing (o : ClientOptions) (w : World) (first n size : Nat) :
    (((List.range size).filterMap fun i =>
      (w.member o first i).joined?.map fun x => x.1.onStream (n + i)).map Client.id).Pairwise
        (· < ·) := by
  rw [List.pairwise_map, List.pairwise_filterMap]
  refine List.pairwise_lt_range.imp fun hlt c hc c' hc' => ?_
  rw [joiner_id hc, joiner_id hc']
  omega

/-- **The members of a batch go their ways as if alone**, in whatever order their attempts end. -/
theorem connectBatch_goes (hq : w.NoBatch)
    (h : w.connectBatch set fuel first size watchful = .ok (w', out, seen)) :
    w.GoesAlone set.options first size w' out := by
  obtain ⟨gone, hperm, hconnected, hrefusals, hcount, hpass, -⟩ := connectBatch_gathers hq h
  obtain ⟨hdials, hconnections, -⟩ := dialBatch_members set w first size
  have hworkers := (dialBatch_frame set w first size).2.2.2.1
  have hjoins := connectBatch_samples h
  rw [promised, dialBatch_sink] at hjoins
  rw [hq.dials, List.nil_append] at hdials
  have hgathered : ∀ {α : Type} (f : Dial → Option α), (gone.filterMap f).Perm
      ((List.range size).filterMap fun i => f ((w.member set.options first i).onStream
        (w.network.connections.length + i))) := by
    intro α f
    have hall := hperm.filterMap f
    rwa [hdials, List.filterMap_map] at hall
  have hjoiners : out.connected = (List.range size).filterMap fun i =>
      (w.member set.options first i).joined?.map fun x =>
        x.1.onStream (w.network.connections.length + i) := by
    rw [hconnected]
    refine Client.sortById_eq ?_ (joiners_increasing ..)
    have hall := hgathered fun d => d.joined?.map Prod.fst
    simp only [Dial.joined?_onStream, Option.map_map] at hall
    exact hall
  refine ⟨hjoiners, ?_, ?_, hcount, ?_, fun i hi hapart => ?_⟩
  · rw [hjoiners]
    exact joiners_increasing ..
  · rw [hrefusals]
    exact hgathered Dial.refusal?
  · rw [hdials, List.filterMap_map] at hjoins
    simpa only [Function.comp_def, Dial.sample?_eq, Dial.joined?_onStream, Option.map_map] using hjoins
  · rw [← hconnections i hi]
    refine hpass.connections _ fun k hk => hapart k ?_
    rwa [hworkers] at hk

theorem connectBatch_alone_returns (hq : w.NoBatch) (hw : w.workers = []) (watchful : Bool)
    (hends : ∀ i < size, (w.alone set.options first i).ending ≠ none) :
    Returns fun fuel => w.connectBatch set fuel first size watchful := by
  refine connectBatch_idle_returns watchful hw fun d hd => ?_
  obtain ⟨hdials, -⟩ := dialBatch_members set w first size
  rw [hdials, hq.dials, List.nil_append] at hd
  obtain ⟨i, hi, rfl⟩ := List.mem_map.1 hd
  exact hends i (List.mem_range.1 hi)

/-! ## One script changes -/

/-- To a batch that begins, two worlds are alike but for the script of connection `n`. -/
structure AlikeBut (w : World) (n : Nat) (v : World) : Prop where
  noBatch : v.NoBatch
  now : v.now = w.now
  connections : v.network.connections.length = w.network.connections.length
  peer : ∀ m, m ≠ n → v.network.peer m = w.network.peer m

/-- What came of a batch in two worlds differs in the entry of member `j` only. -/
structure DifferAt (o : ClientOptions) (first j : Nat) (w w' v v' : World)
    (out out' : BatchOutcome) : Prop where
  connected : out'.connected.filter (·.id ≠ first + j) = out.connected.filter (·.id ≠ first + j)
  refusals : ∃ others, out.refusals.Perm (others ++ (w.member o first j).refusal?.toList) ∧
    out'.refusals.Perm (others ++ (v.member o first j).refusal?.toList)
  joins : ∃ others,
    w'.sink.collect.joins.Perm (w.sink.collect.joins ++
      (others ++ ((w.member o first j).joined?.map Prod.snd).toList)) ∧
    v'.sink.collect.joins.Perm (v.sink.collect.joins ++
      (others ++ ((v.member o first j).joined?.map Prod.snd).toList))

theorem filterMap_range_perm {α : Type} (f : Nat → Option α) {j size : Nat} (hj : j < size) :
    ((List.range size).filterMap f).Perm
      (((List.range size).erase j).filterMap f ++ (f j).toList) := by
  have hperm := (List.perm_cons_erase (List.mem_range.2 hj)).filterMap f
  refine hperm.trans ?_
  rw [List.filterMap_cons]
  cases f j with
  | none => simp
  | some a => exact (List.perm_append_singleton a _).symm

variable {v v' : World} {out' : BatchOutcome} {j : Nat}

theorem AlikeBut.alone_eq (h : w.AlikeBut (w.network.connections.length + j) v)
    {i : Nat} (hi : i ≠ j) : v.alone o first i = w.alone o first i := by
  rw [alone, alone, h.now, h.connections, h.peer _ (by omega)]

theorem AlikeBut.differAt (h : w.AlikeBut (w.network.connections.length + j) v) (hj : j < size)
    (hw : w.GoesAlone o first size w' out) (hv : v.GoesAlone o first size v' out') :
    DifferAt o first j w w' v v' out out' := by
  have hmember : ∀ {i}, i ≠ j → v.member o first i = w.member o first i := by
    intro i hi
    rw [member, member, h.alone_eq hi]
  have hothers : ∀ {α : Type} (f : Dial → Option α),
      (((List.range size).erase j).filterMap fun i => f (v.member o first i)) =
        ((List.range size).erase j).filterMap fun i => f (w.member o first i) := by
    intro α f
    refine List.filterMap_congr fun i hi => ?_
    rw [hmember ((List.nodup_range.mem_erase_iff).1 hi).1]
  refine ⟨?_, ?_, ?_⟩
  · rw [hw.connected, hv.connected, List.filter_filterMap, List.filter_filterMap, h.connections]
    refine List.filterMap_congr fun i _ => ?_
    by_cases hi : i = j
    · have hnone : ∀ (w : World) (n : Nat), ((w.member o first i).joined?.map fun x =>
          x.1.onStream n).filter (·.id ≠ first + j) = none := by
        intro w n
        refine Option.filter_eq_none_iff.2 fun c hc => ?_
        simp [joiner_id hc, hi]
      exact (hnone v _).trans (hnone w _).symm
    · rw [hmember hi]
  · refine ⟨_, hw.refusals.trans (filterMap_range_perm _ hj), ?_⟩
    rw [← hothers]
    exact hv.refusals.trans (filterMap_range_perm _ hj)
  · refine ⟨_, hw.joins.trans ((filterMap_range_perm _ hj).append_left _), ?_⟩
    rw [← hothers fun d => d.joined?.map Prod.snd]
    exact hv.joins.trans ((filterMap_range_perm _ hj).append_left _)

end World

/-- **A batch.** Whatever else goes on, in whichever order the attempts end, wherever the ids begin:
each member comes to what it comes to when it connects alone. Who connects alone is among the clients
handed over, in the order of the ids and as it is alone, and leaves one join sample; who fails alone
is not, and its error is among the failures. If the script of one connection is changed, all but the
entry of its member stays as it was. While no loop runs, a batch whose members all come to an end
alone comes to its end. -/
theorem connectBatch_contract (set : Setting) (first size : Nat) (watchful : Bool) {w : World}
    (hq : w.NoBatch) :
    (∀ fuel w' out seen, w.connectBatch set fuel first size watchful = .ok (w', out, seen) →
      w.GoesAlone set.options first size w' out) ∧
    (∀ fuel fuel' w' out seen v v' out' seen' j, j < size →
      w.AlikeBut (w.network.connections.length + j) v →
      w.connectBatch set fuel first size watchful = .ok (w', out, seen) →
      v.connectBatch set fuel' first size watchful = .ok (v', out', seen') →
      World.DifferAt set.options first j w w' v v' out out') ∧
    (w.workers = [] → (∀ i < size, (w.alone set.options first i).ending ≠ none) →
      Returns fun fuel => w.connectBatch set fuel first size watchful) := by
  refine ⟨fun _ _ _ _ h => World.connectBatch_goes hq h, ?_,
    fun hw hends => World.connectBatch_alone_returns hq hw watchful hends⟩
  intro fuel fuel' w' out seen v v' out' seen' j hj halike h h'
  exact halike.differAt hj (World.connectBatch_goes hq h) (World.connectBatch_goes halike.noBatch h')

/-- A batch of three with ids from 5 on, beside a connection that stands. The first member connects
after the last one, and the member between them is refused. If the last one is refused too, the first
one connects as before. -/
theorem connectBatch_contract_three :
    let set : Setting := { source := SplitMix.source #[] 0 }
    let net (last : Peer) : Network :=
      { peers := [{}, { connectDelay := 4 }, { refuse := some .writeZero }, last]
        connections := [{ peer := {}, fate := .open }] }
    let w : World := { network := net { connectDelay := 2 } }
    let v : World := { network := net { refuse := some .writeZero } }
    (∃ w' out seen, w.connectBatch set 9 5 3 false = .ok (w', out, seen) ∧
      out.connected = [{ id := 5, state := .connected, stream := some 1 },
        { id := 7, state := .connected, stream := some 3 }] ∧
      out.refusals = [.connect .writeZero] ∧ w'.sink.collect.joins.Perm [4, 2] ∧
      ∀ fuel v' out' seen', v.connectBatch set fuel 5 3 false = .ok (v', out', seen') →
        out'.connected.filter (·.id ≠ 7) = [{ id := 5, state := .connected, stream := some 1 }]) ∧
    Returns fun fuel => w.connectBatch set fuel 5 3 false := by
  intro set net w v
  have hq : w.NoBatch := ⟨rfl, rfl, rfl⟩
  obtain ⟨hgoes, hdiffer, hreturns⟩ := connectBatch_contract set 5 3 false hq
  have hruns : ((w.connectBatch set 9 5 3 false).toOption.any fun _ => true) = true := by
    decide +kernel
  obtain ⟨⟨w', out, seen⟩, h, -⟩ := toOption_any.1 hruns
  have hall := hgoes 9 w' out seen h
  have halike : w.AlikeBut 3 v := by
    refine ⟨⟨rfl, rfl, rfl⟩, rfl, rfl, fun m hm => ?_⟩
    match m with
    | 0 | 1 | 2 => rfl
    | 3 => exact (hm rfl).elim
    | m + 4 => rfl
  refine ⟨⟨w', out, seen, h, hall.connected, ?_, hall.joins, ?_⟩, hreturns rfl ?_⟩
  · exact List.perm_singleton.1 hall.refusals
  · intro fuel v' out' seen' h'
    have hsame := (hdiffer 9 fuel w' out seen v v' out' seen' 2 (by decide) halike h h').connected
    rw [hall.connected] at hsame
    exact hsame
  · decide +kernel

end EchoLoad
