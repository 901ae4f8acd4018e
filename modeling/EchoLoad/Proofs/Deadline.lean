import EchoLoad.Proofs.Calls
import EchoLoad.Proofs.Pool
import EchoLoad.Random.SplitMix
import Mathlib.Data.ENat.Basic
/-!
Deadlines. A call under a deadline is compared with the same call without one: whatever ends in time
goes the same way to the last byte, and whatever is late is cut off at the deadline, wherever it
stands then. Main statements: `decode_upTo` for a frame, `exchange_limited` for an exchange, and
`deadline_cuts_late_only` for the calls of a client.
-/

namespace EchoLoad

/-! ## Reading up to an instant -/

/-- The read, if it ends by `d`. -/
def Read.upTo {σ : Type} (clock : σ → Nat) (d : Nat) : Read σ → Read σ
  | .data bytes rest => if clock rest ≤ d then .data bytes rest else .stalled
  | .failed error rest => if clock rest ≤ d then .failed error rest else .stalled
  | .stalled => .stalled

namespace Frame

variable {σ : Type} {read read' : σ → Nat → Read σ} (clock : σ → Nat) {d : Nat} {s : σ}

theorem fill_upTo (hclock : ∀ t, Keeps read fun s => t ≤ clock s)
    (hcut : ∀ s n, clock s ≤ d → read' s n = (read s n).upTo clock d) (need : Nat)
    (hs : clock s ≤ d) :
    fill read' need s = (fill read need s).filter fun x => clock x.2 ≤ d := by
  fun_induction fill read need s with
  | case1 s => simp [fill, Option.filter, hs]
  | case2 need s hn he => simp [fill, hn, hcut s need hs, he, Read.upTo]
  | case3 need s hn e rest he | case4 need s hn rest he =>
    by_cases hrest : clock rest ≤ d <;>
      simp [fill, hn, hcut s need hs, he, Read.upTo, Option.filter, hrest]
  | case5 need s hn b bs rest he ih =>
    by_cases hrest : clock rest ≤ d
    · have hread : read' s need = .data (b :: bs) rest := by
        simp [hcut s need hs, he, Read.upTo, hrest]
      rw [fill, if_neg hn, hread]
      simp only [ih hrest]
      cases fill read (need - (b :: bs).length) rest with
      | none => rfl
      | some x => by_cases hx : clock x.2 ≤ d <;> simp [Option.filter, hx]
    · -- the first piece is late already, and what is read behind it is no earlier
      have hread : read' s need = .stalled := by simp [hcut s need hs, he, Read.upTo, hrest]
      rw [fill, if_neg hn, hread]
      cases hf : fill read (need - (b :: bs).length) rest with
      | none => rfl
      | some x =>
        have hx : clock rest ≤ clock x.2 :=
          fill_keeps (hclock (clock rest)) _ rest (Nat.le_refl _) hf
        have hlate : ¬ clock x.2 ≤ d := by omega
        simp [Option.filter, hlate]

/-- **A frame is read up to an instant** just as it is without a bound, if it is there by then. -/
theorem decode_upTo (hclock : ∀ t, Keeps read fun s => t ≤ clock s)
    (hcut : ∀ s n, clock s ≤ d → read' s n = (read s n).upTo clock d) (limit : Nat)
    (hs : clock s ≤ d) :
    decode read' limit s = (decode read limit s).filter fun x => clock x.2 ≤ d := by
  simp only [decode, fill_upTo clock hclock hcut headerLength hs]
  cases hf : fill read headerLength s with
  | none => rfl
  | some x =>
    obtain ⟨head, s1⟩ := x
    by_cases hs1 : clock s1 ≤ d
    · cases head with
      | failed e => simp [Option.filter, hs1]
      | short n => cases n <;> simp [Option.filter, hs1]
      | full head =>
        by_cases hlimit : limit < declared head
        · simp [Option.filter, hlimit, hs1]
        · simp only [Option.filter, hs1, decide_true, if_true, hlimit, if_false,
            fill_upTo clock hclock hcut (declared head) hs1]
          cases fill read (declared head) s1 with
          | none => rfl
          | some y =>
            obtain ⟨body, s2⟩ := y
            by_cases hs2 : clock s2 ≤ d <;> cases body <;> simp [hs2]
    · have hbody : ∀ need f s2, fill read need s1 = some (f, s2) → ¬ clock s2 ≤ d := by
        intro need f s2 h
        have := fill_keeps (hclock (clock s1)) need s1 (Nat.le_refl _) h
        omega
      cases head with
      | failed e => simp [Option.filter, hs1]
      | short n => cases n <;> simp [Option.filter, hs1]
      | full head =>
        by_cases hlimit : limit < declared head
        · simp [Option.filter, hlimit, hs1]
        · simp only [Option.filter, hs1, decide_false, if_false, hlimit, Bool.false_eq_true]
          cases hf2 : fill read (declared head) s1 with
          | none => rfl
          | some y =>
            have hs2 := hbody _ _ _ hf2
            obtain ⟨body, s2⟩ := y
            cases body <;> simp [hs2]

end Frame

/-! ## One exchange -/

/-- How long a call takes that begins at `now`. There is no bound if it never ends. -/
def Ending.span (now : Duration) : Ending → ℕ∞
  | some (t, _) => ((t - now : ℕ) : ℕ∞)
  | none => ⊤

namespace Connection

theorem read_clock (deadline : Option Duration) (t : Duration) :
    Frame.Keeps (read deadline) fun s => t ≤ s.1 := by
  rintro ⟨now, c⟩ n hs
  constructor <;> intro _ s' h <;> simp only [read] at h <;> split at h <;> try cases h
  all_goals
    split at h <;> try cases h
    split at h <;> cases h <;> exact Nat.le_trans hs (Nat.le_max_left ..)

theorem read_upTo (d : Duration) (s : Duration × Connection) (n : Nat) (hs : s.1 ≤ d) :
    read (some d) s n = (read none s n).upTo Prod.fst d := by
  obtain ⟨now, c⟩ := s
  cases hinbox : c.inbox with
  | nil => simp [read, hinbox, Read.upTo]
  | cons x rest =>
    obtain ⟨ready, item⟩ := x
    have hnow : max now ready ≤ d ↔ ready ≤ d := by
      simp only [Nat.max_le]
      exact ⟨And.right, fun h => ⟨hs, h⟩⟩
    by_cases hready : ready ≤ d
    · have hlate : ¬ d < ready := Nat.not_lt.2 hready
      cases item <;> simp [read, hinbox, late, hlate, Read.upTo, hnow, hready]
    · have hlate : d < ready := Nat.lt_of_not_le hready
      cases item <;> simp [read, hinbox, late, hlate, Read.upTo, hnow, hready]

/-- **An exchange under a limit.** If it takes no longer then it goes as it does without one;
otherwise it ends at the limit. -/
theorem exchange_limited (c : Connection) (now limit : Duration) (payload : Bytes) :
    (c.exchange now none payload).2.span now ≤ limit ∧
        c.exchange now (some limit) payload = c.exchange now none payload ∨
      limit < (c.exchange now none payload).2.span now ∧
        (c.exchange now (some limit) payload).2 = some (now + limit, .error (.timeout limit)) := by
  have hatOnce : ∀ r, Ending.span now (some (now, r)) ≤ limit := by simp [Ending.span]
  unfold exchange
  cases hencode : Frame.encode payload with
  | error e => exact .inl ⟨hatOnce _, rfl⟩
  | ok request =>
    cases hwrite : c.writeAll (c.peer.reply c.requests).allowance request with
    | mk c1 failure =>
      cases failure with
      | some e => exact .inl ⟨by simpa [hwrite] using hatOnce _, by simp [hwrite]⟩
      | none =>
        simp only [hwrite]
        cases hflush : (c.peer.reply c.requests).flushFault with
        | some e => exact .inl ⟨hatOnce _, rfl⟩
        | none =>
          simp only [Option.map_none, Option.map_some]
          rw [Frame.decode_upTo Prod.fst (read_clock none)
            (fun s n hs => read_upTo _ s n hs) payload.length (Nat.le_add_right now limit)]
          cases hdecode : Frame.decode (read none) payload.length
              (now, c1.deliver now (c.peer.reply c.requests) payload) with
          | none => exact .inr ⟨by simp [Ending.span], rfl⟩
          | some x =>
            obtain ⟨reply, t, c2⟩ := x
            by_cases ht : t ≤ now + limit
            · have hspan : t - now ≤ limit := Nat.sub_le_iff_le_add'.2 ht
              exact .inl ⟨Nat.cast_le.2 hspan, by simp [Option.filter, ht]⟩
            · have hspan : limit < t - now := Nat.lt_sub_iff_add_lt'.2 (Nat.lt_of_not_le ht)
              exact .inr ⟨Nat.cast_lt.2 hspan, by simp [Option.filter, ht]⟩

end Connection

/-! ## The calls of a client -/

/-- How long it takes until an attempt to connect ends, if it is waited for as long as it takes. -/
def Peer.span (p : Peer) : ℕ∞ := if p.never then ⊤ else (p.connectDelay : ℕ∞)

/-- A call under a deadline `limit` for something that by itself takes `span`. Unless that is late, it
is the call `free` without the deadline. -/
structure CutsLate (span : ℕ∞) (limit : Duration) (free call : Call) (Cut : Call → Prop) :
    Prop where
  early : span < limit → call = free
  late : limit < span → Cut call

namespace Client

/-- The call has failed at `t` and counted nothing. -/
structure CutOff (c : Client) (t : Duration) (e : ClientError) (call : Call) : Prop where
  state : call.client.state = .failed
  stream : call.client.stream = none
  rounds : call.client.rounds = c.rounds
  bytesSent : call.client.bytesSent = c.bytesSent
  ending : call.ending = some (t, .error e)

variable {o : ClientOptions} {c : Client} {now limit : Duration} {net : Network} {n : Nat}
  {conn : Connection} {payload : Bytes}

/-- An exchange on a connection that is held goes by the exchange of that connection alone. -/
theorem exchange_congr (o o' : ClientOptions) (hs : c.stream = some n)
    (hn : net.connections[n]? = some conn)
    (h : conn.exchange now o.ioTimeout payload = conn.exchange now o'.ioTimeout payload) :
    c.exchange o now payload net = c.exchange o' now payload net := by
  simp only [exchange, hs, Option.bind_some, hn, Option.map_some, h]

theorem exchange_cutOff (hs : c.stream = some n) (hn : net.connections[n]? = some conn)
    (hopen : conn.fate = .open)
    (hlate : limit < (conn.exchange now none payload).2.span now) :
    ∃ conn', conn'.fate = .dropped ∧ c.exchange { o with ioTimeout := some limit } now payload net =
      ⟨c.failed, net.modify n fun _ => conn', some (now + limit, .error (.timeout limit))⟩ := by
  obtain ⟨hspan, -⟩ | ⟨-, hcut⟩ := conn.exchange_limited now limit payload
  · exact absurd hlate (not_lt.2 hspan)
  · obtain ⟨-, hfate⟩ := conn.exchange_alike now (some limit) payload
    cases he : conn.exchange now (some limit) payload with
    | mk conn' ending =>
      rw [he] at hcut hfate
      obtain rfl : ending = _ := hcut
      have hgone := (c.failed_gaveUp (hfate.trans hopen)).fate
      exact ⟨conn'.drop, hgone, by simp [exchange, hs, hn, he]⟩

theorem echoRound_cuts (o : ClientOptions) (limit : Duration) (h : c.HoldsAt net n conn) :
    CutsLate ((conn.exchange now none payload).2.span now) limit
      (c.echoRound { o with ioTimeout := none } now payload net)
      (c.echoRound { o with ioTimeout := some limit } now payload net)
      fun call => c.CutOff (now + limit) (.timeout limit) call ∧
        ∃ conn', conn'.fate = .dropped ∧ call.network = net.modify n fun _ => conn' := by
  let active : Client := { c with state := .active }
  have hs : active.stream = some n := h.stream
  constructor
  · intro hearly
    obtain ⟨-, hsame⟩ | ⟨hspan, -⟩ := conn.exchange_limited now limit payload
    · have hexchange := exchange_congr { o with ioTimeout := some limit }
        { o with ioTimeout := none } hs h.connection hsame
      simp only [echoRound, h.isOpen, if_true]
      rw [hexchange]
    · exact absurd hearly hspan.not_gt
  · intro hlate
    obtain ⟨conn', hfate, hcall⟩ := exchange_cutOff (o := o) hs h.connection h.fate hlate
    have hround : c.echoRound { o with ioTimeout := some limit } now payload net =
        ⟨c.failed, net.modify n fun _ => conn', some (now + limit, .error (.timeout limit))⟩ := by
      simp only [echoRound, h.isOpen, if_true]
      rw [hcall]
      rfl
    rw [hround]
    exact ⟨⟨rfl, rfl, rfl, rfl, rfl⟩, conn', hfate, rfl⟩

/-- A handshake under a deadline. It has as long as a round, whatever time the transport took. -/
theorem connect_cuts_handshake {delay : Duration} {peer : Peer} {hello : Bytes}
    (limit : Duration) (hstate : c.state = .unconnected)
    (hpeer : net.peer net.connections.length = peer)
    (hstands : establish o.connectTimeout peer = (delay, .connected))
    (hoption : peer.optionError = none) (hhello : o.handshake = some hello) :
    CutsLate ((({ peer, fate := .open } : Connection).exchange (now + delay) none hello).2.span
        (now + delay)) limit
      (c.connect { o with ioTimeout := none } now net)
      (c.connect { o with ioTimeout := some limit } now net)
      fun call => c.CutOff (now + delay + limit) (.timeout limit) call ∧
        ∃ conn, conn.fate = .dropped ∧ call.network = net.attempt conn := by
  let conn : Connection := { peer, fate := .open }
  let joined : Client := { c with state := .connected, stream := some net.connections.length }
  have hs : joined.stream = some net.connections.length := rfl
  have hconn := attempt_getElem? net conn
  have hconnect : ∀ io, c.connect { o with ioTimeout := io } now net =
      let call := joined.exchange { o with ioTimeout := io } (now + delay) hello (net.attempt conn)
      { call with ending := call.ending.map fun x => (x.1, x.2.map fun _ => delay) } := by
    intro io
    simp only [connect, hstate, hpeer, hstands, hoption, hhello, ne_eq, not_true_eq_false, if_false]
    rfl
  rw [hconnect, hconnect]
  constructor
  · intro hearly
    obtain ⟨-, hsame⟩ | ⟨hspan, -⟩ := conn.exchange_limited (now + delay) limit hello
    · rw [exchange_congr { o with ioTimeout := some limit } { o with ioTimeout := none } hs hconn
        hsame]
    · exact absurd hearly hspan.not_gt
  · intro hlate
    obtain ⟨conn', hfate, hcall⟩ := exchange_cutOff (o := o) hs hconn rfl hlate
    rw [hcall, attempt_modify]
    exact ⟨⟨rfl, rfl, rfl, rfl, rfl⟩, conn', hfate, rfl⟩

theorem connect_cuts (o : ClientOptions) (now limit : Duration) (net : Network)
    (hstate : c.state = .unconnected) :
    CutsLate (net.peer net.connections.length).span limit
      (c.connect { o with connectTimeout := none } now net)
      (c.connect { o with connectTimeout := some limit } now net)
      fun call => (∃ x : IoError, x.kind = .timedOut ∧ c.CutOff (now + limit) (.connect x) call) ∧
        ∃ conn, conn.fate = .pending ∧ call.network = net.attempt conn := by
  generalize hpeer : net.peer net.connections.length = peer
  constructor
  · intro hearly
    have hsame : establish (some limit) peer = establish none peer := by
      cases hnever : peer.never with
      | true => simp [Peer.span, hnever] at hearly
      | false =>
        have hdelay : ¬ limit < peer.connectDelay := by
          have : peer.connectDelay < limit := by simpa [Peer.span, hnever] using hearly
          exact Nat.not_lt.2 (Nat.le_of_lt this)
        simp [establish, hnever, hdelay]
    simp only [connect, hpeer, hsame]
    rfl
  · intro hlate
    have hcut : establish (some limit) peer = (limit, .timedOut limit) := by
      cases hnever : peer.never with
      | true => simp [establish, hnever]
      | false =>
        have hdelay : limit < peer.connectDelay := by simpa [Peer.span, hnever] using hlate
        simp [establish, hdelay]
    simp only [connect, hstate, hpeer, hcut, ne_eq, not_true_eq_false, if_false]
    exact ⟨⟨_, rfl, rfl, rfl, rfl, rfl, rfl⟩, _, rfl, rfl⟩

end Client

/-! ## The samples of a batch -/

def Dial.sample? (d : Dial) : Option Duration :=
  match d.ending with
  | some (_, .ok latency) => some latency
  | _ => none

namespace World

variable {set : Setting} {w w' : World} {fuel first size : Nat} {watchful : Bool}
  {out : BatchOutcome} {seen : Option Failure}

/-- The join samples there are, and those that attempts in flight will leave. -/
def promised (w : World) : List Duration :=
  w.sink.collect.joins ++ w.dials.filterMap Dial.sample?

theorem InternalStep.promised (hs : InternalStep set w w') : w'.promised.Perm w.promised := by
  have hends : ∀ {i : Nat} {d : Dial}, w.dials[i]? = some d →
      (d.sample?.toList ++ (w.dials.eraseIdx i).filterMap Dial.sample?).Perm
        (w.dials.filterMap Dial.sample?) := by
    intro i d hd
    obtain ⟨hi, rfl⟩ := List.getElem?_eq_some_iff.1 hd
    have hperm := (List.getElem_cons_eraseIdx_perm hi).filterMap Dial.sample?
    rw [List.filterMap_cons] at hperm
    cases hsample : w.dials[i].sample? <;> simpa [hsample] using hperm
  cases hs with
  | signal hsignal => simp [interrupted_eq hsignal, World.promised]
  | @arrived i c t latency hd =>
    simp only [World.promised, World.arrived, Sink.collect_record_join, List.append_assoc]
    exact (hends hd).append_left _
  | declined hd => exact (hends hd).append_left _
  | echoed =>
    simp only [World.promised, World.echoed, Sink.collect_record_message]
    exact .refl _
  | broken | start | retire => exact .refl _

/-- **A batch leaves one join sample for each attempt that succeeds**, and no other. -/
theorem connectBatch_samples
    (h : w.connectBatch set fuel first size watchful = .ok (w', out, seen)) :
    w'.sink.collect.joins.Perm (w.dialBatch set first size).promised := by
  obtain ⟨⟨w1, seen1⟩, ha, he⟩ := map_eq_ok.1 h
  cases he
  apply attend_rule (I := fun _ w1 => w1.promised.Perm (w.dialBatch set first size).promised)
    (Q := fun w1 _ => w1.sink.collect.joins.Perm (w.dialBatch set first size).promised)
    (fun _ _ _ h => h) (fun _ _ _ h hs => hs.promised.trans h) _ (.refl _) ha
  intro s w1 w2 b h hr
  cases hr with
  | alarm ha => cases ha
  | mail => exact h
  | joined _ _ hj => cases hj
  | ended he =>
    have hnone : w1.dials = [] := List.isEmpty_iff.1 he
    show w1.sink.collect.joins.Perm _
    simpa [World.promised, hnone] using h

theorem dialBatch_dials (set : Setting) (w : World) (size : Nat) :
    ∃ dials, (w.dialBatch set w.network.connections.length size).dials = w.dials ++ dials ∧
      ∀ i d, dials[i]? = some d → ∃ (id : Nat) (net : Network),
        net.peer net.connections.length = w.network.peer (w.network.connections.length + i) ∧
        d.ending = (({ id } : Client).connect set.options w.now net).ending := by
  induction size generalizing w with
  | zero => exact ⟨[], by simp [dialBatch], by simp⟩
  | succ size ih =>
    obtain ⟨dials, hdials, hmeets⟩ := ih (w.dial set w.network.connections.length)
    obtain ⟨conn, hnet, -⟩ := Client.connect_new set.options w.now w.network
    have hpeers : (w.dial set w.network.connections.length).network.peer = w.network.peer := by
      rw [show (w.dial set w.network.connections.length).network = w.network.attempt conn from hnet]
      rfl
    rw [dial_length, hpeers] at hmeets
    rw [dial_length] at hdials
    let call := ({ id := w.network.connections.length } : Client).connect set.options w.now w.network
    refine ⟨⟨call.client, call.ending⟩ :: dials, ?_, ?_⟩
    · exact hdials.trans (List.append_assoc ..)
    · intro i d hd
      cases i with
      | zero =>
        cases hd
        exact ⟨_, w.network, rfl, rfl⟩
      | succ i =>
        obtain ⟨id, net, hpeer, hending⟩ := hmeets i d (by simpa using hd)
        refine ⟨id, net, ?_, hending⟩
        rw [hpeer, Nat.add_assoc, Nat.add_comm 1]

end World

/-! ## All calls -/

/-- **Deadlines change nothing but the late case.** A round, a handshake and an attempt that take less
time by themselves than their deadline allows leave the same client, the same connection and the same
result as without the deadline. One that takes more ends at the deadline: a round and a handshake with
a timeout and the connection given up without a shutdown, an attempt with an error of the transport
and no connection, and no join sample in the batch it belongs to; in each case the client has failed
and has counted nothing. A handshake has its time from the moment the transport stands, so that the
deadline of the attempt never cuts it. -/
theorem deadline_cuts_late_only (o : ClientOptions) (c : Client) (now limit : Duration)
    (net : Network) :
    (∀ n conn payload, c.HoldsAt net n conn →
      CutsLate ((conn.exchange now none payload).2.span now) limit
        (c.echoRound { o with ioTimeout := none } now payload net)
        (c.echoRound { o with ioTimeout := some limit } now payload net)
        fun call => c.CutOff (now + limit) (.timeout limit) call ∧
          ∃ conn', conn'.fate = .dropped ∧ call.network = net.modify n fun _ => conn') ∧
    (∀ delay peer hello, c.state = .unconnected → net.peer net.connections.length = peer →
      Client.establish o.connectTimeout peer = (delay, .connected) → peer.optionError = none →
      o.handshake = some hello →
      CutsLate ((({ peer, fate := .open } : Connection).exchange (now + delay) none hello).2.span
          (now + delay)) limit
        (c.connect { o with ioTimeout := none } now net)
        (c.connect { o with ioTimeout := some limit } now net)
        fun call => c.CutOff (now + delay + limit) (.timeout limit) call ∧
          ∃ conn, conn.fate = .dropped ∧ call.network = net.attempt conn) ∧
    (c.state = .unconnected →
      CutsLate (net.peer net.connections.length).span limit
        (c.connect { o with connectTimeout := none } now net)
        (c.connect { o with connectTimeout := some limit } now net)
        fun call =>
          (∃ x : IoError, x.kind = .timedOut ∧ c.CutOff (now + limit) (.connect x) call) ∧
          ∃ conn, conn.fate = .pending ∧ call.network = net.attempt conn) ∧
    (∀ (set : Setting) (w w' : World) fuel size watchful out seen,
      set.options.connectTimeout = some limit → w.dials = [] →
      w.connectBatch set fuel w.network.connections.length size watchful = .ok (w', out, seen) →
      let dials := (w.dialBatch set w.network.connections.length size).dials
      w'.sink.collect.joins.Perm (w.sink.collect.joins ++ dials.filterMap Dial.sample?) ∧
      ∀ i d, dials[i]? = some d →
        limit < (w.network.peer (w.network.connections.length + i)).span → d.sample? = none) := by
  refine ⟨fun n conn payload h => Client.echoRound_cuts o limit h, ?_, ?_, ?_⟩
  · intro delay peer hello hstate hpeer hstands hoption hhello
    exact Client.connect_cuts_handshake limit hstate hpeer hstands hoption hhello
  · exact Client.connect_cuts o now limit net
  · intro set w w' fuel size watchful out seen htimeout hdials h
    constructor
    · have hsamples := World.connectBatch_samples h
      rwa [World.promised, World.dialBatch_sink] at hsamples
    · intro i d hd hlate
      obtain ⟨dials, happend, hmeets⟩ := World.dialBatch_dials set w size
      rw [happend, hdials, List.nil_append] at hd
      obtain ⟨id, net, hpeer, hending⟩ := hmeets i d hd
      have hcuts := Client.connect_cuts (c := { id }) set.options w.now limit net rfl
      rw [hpeer] at hcuts
      have hoptions : { set.options with connectTimeout := some limit } = set.options := by
        rw [← htimeout]
      obtain ⟨⟨x, -, hcut⟩, -⟩ := hcuts.late hlate
      rw [hoptions] at hcut
      simp [Dial.sample?, hending, hcut.ending]

/-- A peer that answers after five milliseconds and is reached after four. Three milliseconds are too
little for a round, a handshake and an attempt, and nine are enough. In a batch of two attempts with
three milliseconds only the other one leaves a sample. -/
theorem deadline_cuts_late_only_millis :
    let peer : Peer := { connectDelay := 4000000, latency := 5000000 }
    let conn : Connection := { peer, fate := .open }
    let net : Network := { connections := [conn], rest := peer }
    let o : ClientOptions := { handshake := some [1] }
    let held : Client := { id := 0, state := .connected, stream := some 0 }
    let fresh : Client := { id := 1 }
    held.CutOff 3000000 (.timeout 3000000)
        (held.echoRound { o with ioTimeout := some 3000000 } 0 [7] net) ∧
      held.echoRound { o with ioTimeout := some 9000000 } 0 [7] net =
        held.echoRound o 0 [7] net ∧
      fresh.CutOff 7000000 (.timeout 3000000)
        (fresh.connect { o with ioTimeout := some 3000000 } 0 net) ∧
      (∃ x : IoError, x.kind = .timedOut ∧ fresh.CutOff 3000000 (.connect x)
        (fresh.connect { o with connectTimeout := some 3000000 } 0 net)) ∧
      fresh.connect { o with connectTimeout := some 9000000 } 0 net = fresh.connect o 0 net ∧
      ∃ w' out seen, ({ network := { peers := [peer] } } : World).connectBatch
          { options := { o with connectTimeout := some 3000000 }, source := SplitMix.source #[] 0 }
          9 0 2 false = .ok (w', out, seen) ∧
        w'.sink.collect.joins.Perm [0] := by
  intro peer conn net o held fresh
  have hheld : held.HoldsAt net 0 conn := ⟨by decide, rfl, rfl, rfl⟩
  have hround : (conn.exchange 0 none [7]).2 = some (5000000, .ok 5000000) := by decide +kernel
  have hello : (conn.exchange (0 + 4000000) none [1]).2 = some (9000000, .ok 5000000) := by
    decide +kernel
  obtain ⟨hrounds, -, -, -⟩ := deadline_cuts_late_only o held 0 3000000 net
  obtain ⟨hlonger, -, -, -⟩ := deadline_cuts_late_only o held 0 9000000 net
  obtain ⟨-, hhandshake, hattempt, -⟩ := deadline_cuts_late_only o fresh 0 3000000 net
  obtain ⟨-, -, hreached, -⟩ := deadline_cuts_late_only o fresh 0 9000000 net
  refine ⟨?_, ?_, ?_, ?_, ?_, ?_⟩
  · apply ((hrounds 0 conn [7] hheld).late _).1
    rw [hround]
    exact Nat.cast_lt.2 (by decide)
  · apply (hlonger 0 conn [7] hheld).early
    rw [hround]
    exact Nat.cast_lt.2 (by decide)
  · apply ((hhandshake 4000000 peer [1] rfl rfl rfl rfl rfl).late _).1
    rw [hello]
    exact Nat.cast_lt.2 (by decide)
  · exact ((hattempt rfl).late (Nat.cast_lt.2 (by decide))).1
  · exact (hreached rfl).early (Nat.cast_lt.2 (by decide))
  · let set : Setting :=
      { options := { o with connectTimeout := some 3000000 }, source := SplitMix.source #[] 0 }
    let w : World := { network := { peers := [peer] } }
    have hreturns : ((w.connectBatch set 9 0 2 false).toOption.any fun _ => true) = true := by
      decide +kernel
    obtain ⟨⟨w', out, seen⟩, h, -⟩ := toOption_any.1 hreturns
    have hsamples : (w.dialBatch set 0 2).dials.filterMap Dial.sample? = [0] := by decide +kernel
    have hbatch := (deadline_cuts_late_only o fresh 0 3000000 net).2.2.2 set w w' 9 2 false out seen
      rfl rfl h
    have hjoins := hbatch.1
    rw [show (w.dialBatch set w.network.connections.length 2).dials.filterMap Dial.sample? = [0]
      from hsamples] at hjoins
    exact ⟨w', out, seen, h, hjoins⟩

end EchoLoad
