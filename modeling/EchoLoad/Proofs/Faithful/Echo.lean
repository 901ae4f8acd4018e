import EchoLoad.Proofs.Faithful
import EchoLoad.Proofs.Wire
/-!
A peer that echoes every request is faithful, in whatever pieces it takes and gives the bytes.
Main statement: `echo_faithful`.
-/

namespace EchoLoad

/-- A peer that echoes every request with a payload of an allowed length in time. -/
structure Peer.Echoes (o : ClientOptions) (size : PayloadSize) (p : Peer) : Prop where
  reply : ∀ k, p.reply k = .echo
  latency : 0 < p.latency
  deadline : Connection.late o.ioTimeout p.latency = false
  readChunk : p.readChunk ≠ some 0
  writeChunk : p.writeChunk ≠ some 0
  size : ∀ n, size.Allows n → n < Frame.lengthBound

namespace Connection

variable {c : Connection}

theorem take_cut {chunk : Option Nat} {need : Nat} {b : Bytes} (hchunk : chunk ≠ some 0)
    (hpos : 0 < need) : ∃ k, 0 < k ∧ k ≤ need ∧ (cut chunk b).take need = b.take k := by
  cases chunk with
  | none => exact ⟨need, hpos, Nat.le_refl _, rfl⟩
  | some n =>
    have hn : n ≠ 0 := fun h => hchunk (by rw [h])
    exact ⟨min need n, by omega, by omega, List.take_take⟩

/-- Filling from an item that has enough bytes, whatever the pieces. -/
theorem fill_front {deadline : Option Duration} {need : Nat} (now : Duration) {t : Duration}
    {b : Bytes} {rest : List (Duration × Item)} (hinbox : c.inbox = (t, .bytes b) :: rest)
    (hneed : need ≤ b.length) (hpos : 0 < need) (hlate : late deadline t = false)
    (hchunk : c.peer.readChunk ≠ some 0) :
    ∃ c', Frame.fill (read deadline) need (now, c) = some (.full (b.take need), (max now t, c')) ∧
      c'.peer = c.peer ∧
      c'.inbox = if b.drop need = [] then rest else (t, .bytes (b.drop need)) :: rest := by
  induction need using Nat.strongRecOn generalizing c now b with
  | ind need ih =>
    obtain ⟨k, hk, hle, htake⟩ := take_cut (b := b) hchunk hpos
    have hlen : (b.take k).length = k := List.length_take_of_le (by omega)
    let c1 : Connection := { c with
      inbox := if b.drop k = [] then rest else (t, .bytes (b.drop k)) :: rest
      taken := b.take k :: c.taken }
    have hread : read deadline (now, c) need = .data (b.take k) (max now t, c1) := by
      simp only [read, hinbox, hlate, htake, hlen, c1, Bool.false_eq_true, if_false]
    obtain ⟨x, xs, hx⟩ : ∃ x xs, b.take k = x :: xs :=
      List.exists_cons_of_length_pos (by rw [hlen]; exact hk)
    have hfill : Frame.fill (read deadline) need (now, c) =
        (Frame.fill (read deadline) (need - k) (max now t, c1)).map fun x =>
          (x.1.after (b.take k), x.2) := by
      rw [Frame.fill, if_neg (by omega), hread, hx]
      dsimp only
      rw [← hx, hlen]
    by_cases hdone : need = k
    · subst hdone
      refine ⟨c1, ?_, rfl, rfl⟩
      rw [hfill, Nat.sub_self, Frame.fill, if_pos rfl]
      simp [Frame.Filled.after]
    · have hleft : b.drop k ≠ [] := by
        rw [ne_eq, List.drop_eq_nil_iff]
        omega
      obtain ⟨c', hc, hpeer, hinbox'⟩ := ih (need - k) (by omega) (c := c1) (max now t)
        (b := b.drop k) (if_neg hleft) (by rw [List.length_drop]; omega) (by omega) hchunk
      refine ⟨c', ?_, hpeer, ?_⟩
      · have hmax : max (max now t) t = max now t := by grind
        have hbytes : b.take k ++ (b.drop k).take (need - k) = b.take need := by
          rw [← List.take_add, Nat.add_sub_cancel' hle]
        rw [hfill, hc, Option.map_some, hmax]
        dsimp only [Frame.Filled.after]
        rw [hbytes]
      · rw [hinbox', List.drop_drop, Nat.add_sub_cancel' hle]

theorem writeAll_accepted (bytes : Bytes) (hchunk : c.peer.writeChunk ≠ some 0) :
    ∃ written, c.writeAll none bytes = ({ c with written }, none) := by
  generalize hallowance : (none : Option (Nat × IoError)) = allowance
  fun_induction writeAll allowance c bytes with
  | case1 => exact ⟨_, rfl⟩
  | case2 => cases hallowance
  | case3 allowance c bytes hb piece hp ha =>
    subst hallowance
    have hcut : cut c.peer.writeChunk bytes = [] := hp
    obtain ⟨k, hk, -, htake⟩ := take_cut (b := bytes) hchunk (List.length_pos_iff.2 hb)
    have hlen : (cut c.peer.writeChunk bytes).length ≤ bytes.length := by rw [hcut]; simp
    rw [List.take_of_length_le hlen, hcut] at htake
    exact (hb ((List.take_eq_nil_iff.1 htake.symm).resolve_left (by omega))).elim
  | case4 allowance c bytes hb piece hp ha ih =>
    subst hallowance
    obtain ⟨written, hw⟩ := ih hchunk rfl
    refine ⟨written, ?_⟩
    dsimp only
    rw [if_neg hp]
    exact hw

theorem decode_front {deadline : Option Duration} (now : Duration) {t : Duration} {payload : Bytes}
    (hinbox : c.inbox = [(t, .bytes (Frame.wire payload))])
    (hlen : payload.length < Frame.lengthBound) (hlate : late deadline t = false)
    (hchunk : c.peer.readChunk ≠ some 0) :
    ∃ c', Frame.decode (read deadline) payload.length (now, c) =
        some (.ok (some payload), (max now t, c')) ∧ c'.peer = c.peer ∧ c'.inbox = [] := by
  have hwire : (Frame.wire payload).length = Frame.headerLength + payload.length := by
    simp [Frame.wire, Frame.header_length]
  have hhead : (Frame.wire payload).take Frame.headerLength = Frame.header payload.length :=
    List.take_left' (Frame.header_length _)
  have hbody : (Frame.wire payload).drop Frame.headerLength = payload :=
    List.drop_left' (Frame.header_length _)
  have hneed : Frame.headerLength ≤ (Frame.wire payload).length := by
    rw [hwire]
    exact Nat.le_add_right _ _
  obtain ⟨c1, hfill, hpeer, hinbox1⟩ := fill_front now hinbox hneed (by decide) hlate hchunk
  rw [hhead] at hfill
  rw [hbody] at hinbox1
  simp only [Frame.decode, hfill, Frame.declared_header hlen, Nat.lt_irrefl, if_false]
  by_cases hp : payload = []
  · rw [if_pos hp] at hinbox1
    refine ⟨c1, ?_, hpeer, hinbox1⟩
    rw [Frame.fill, if_pos (by rw [hp]; rfl), hp]
  · rw [if_neg hp] at hinbox1
    obtain ⟨c2, hfill2, hpeer2, hinbox2⟩ := fill_front (max now t) hinbox1
      (Nat.le_refl _) (List.length_pos_iff.2 hp) hlate (by rwa [hpeer])
    have hmax : max (max now t) t = max now t := by grind
    refine ⟨c2, ?_, hpeer2.trans hpeer, by rw [hinbox2, List.drop_length, if_pos rfl]⟩
    rw [hfill2, List.take_length, hmax]

theorem firstDifference_self (payload : Bytes) : firstDifference payload payload = none := by
  induction payload with
  | nil => rfl
  | cons b payload ih => simp [firstDifference, ih]

/-- A request that is echoed in time, however many pieces it takes. -/
theorem exchange_echo (now : Duration) {limit : Option Duration} {payload : Bytes}
    (hreply : c.peer.reply c.requests = .echo) (hlatency : late limit c.peer.latency = false)
    (hread : c.peer.readChunk ≠ some 0) (hwrite : c.peer.writeChunk ≠ some 0)
    (hinbox : c.inbox = []) (hlen : payload.length < Frame.lengthBound) :
    ∃ c', c.exchange now limit payload =
        (c', some (now + c.peer.latency, .ok c.peer.latency)) ∧
      c'.peer = c.peer ∧ c'.inbox = [] ∧ c'.requests = c.requests + 1 := by
  obtain ⟨written, hwritten⟩ := writeAll_accepted (c := c) (Frame.wire payload) hwrite
  have hlate : late (limit.map (now + ·)) (now + c.peer.latency) = false := by
    cases limit with
    | none => rfl
    | some l =>
      simp only [late, Option.map_some, decide_eq_false_iff_not] at hlatency ⊢
      grind
  let c1 : Connection := ({ c with written } : Connection).deliver now .echo payload
  have hinbox1 : c1.inbox = [(now + c.peer.latency, .bytes (Frame.wire payload))] := by
    simp [c1, deliver, hinbox, Reply.items]
  obtain ⟨c2, hdecode, hpeer, hinbox2⟩ := decode_front now hinbox1 hlen hlate hread
  have hrequests : c2.requests = c.requests + 1 :=
    Frame.decode_keeps (read_keeps (P := fun c => c.requests = c1.requests) _ fun _ _ _ h => h) _
      (now, c1) rfl hdecode
  have hmax : max now (now + c.peer.latency) = now + c.peer.latency := by grind
  have hlag : now + c.peer.latency - now = c.peer.latency := by grind
  rw [hmax] at hdecode
  refine ⟨c2, ?_, hpeer, hinbox2, hrequests⟩
  simp only [exchange, Frame.encode, hlen, if_true, hreply, Reply.allowance, hwritten,
    Reply.flushFault, show Connection.deliver _ now .echo payload = c1 from rfl, hdecode, verdict,
    hlag, ne_eq, not_true_eq_false, if_false, firstDifference_self]

/-- **An echoing peer is faithful**, once nothing is left to be read from it. -/
theorem echo_faithful {o : ClientOptions} {size : PayloadSize} (since : Duration)
    (hp : c.peer.Echoes o size) (hinbox : c.inbox = []) : c.Faithful o size since := by
  refine ⟨fun _ c => c.peer.Echoes o size ∧ c.inbox = [], ⟨hp, hinbox⟩, ?_⟩
  rintro _ c now payload ⟨hp, hinbox⟩ - hsize
  obtain ⟨c', hecho, hpeer, hinbox', -⟩ := exchange_echo now (hp.reply _) hp.deadline hp.readChunk
    hp.writeChunk hinbox (hp.size _ hsize)
  exact ⟨c', _, _, hecho, hp.latency, hpeer ▸ hp, hinbox'⟩

end Connection

theorem Peer.attempt_echoes {o : ClientOptions} {size : PayloadSize} {p : Peer}
    (hp : p.Echoes o size) {t latency : Duration}
    (h : (p.attempt o).ending = some (t, .ok latency)) :
    ∀ conn ∈ (p.attempt o).network.connections, conn.peer = p ∧ conn.inbox = [] := by
  have hrest : ({ rest := p } : Network).peer 0 = p := rfl
  obtain ⟨d, e, he⟩ : ∃ d e, Client.establish o.connectTimeout p = (d, e) := ⟨_, _, rfl⟩
  simp only [Peer.attempt, Client.connect, ne_eq, not_true_eq_false, if_false, hrest, he,
    List.length_nil] at h ⊢
  cases e with
  | never | timedOut | refused => cases h
  | connected =>
    simp only at h ⊢
    cases hx : p.optionError with
    | some x => rw [hx] at h; cases h
    | none =>
      rw [hx] at h
      cases hh : o.handshake with
      | none =>
        intro conn hm
        rw [List.mem_singleton.1 hm]
        exact ⟨rfl, rfl⟩
      | some hello =>
        rw [hh] at h
        let c : Connection := { peer := p, fate := .open }
        obtain ⟨hnet, hending, -⟩ := Client.exchange_last o
          { id := 0, state := .connected, stream := some 0 } (0 + d) hello { rest := p } c rfl
        obtain ⟨⟨t', r⟩, hr, hmap⟩ := Option.map_eq_some_iff.1 h
        have hex := hending.symm.trans hr
        have hfits : hello.length < Frame.lengthBound := by
          refine Decidable.byContradiction fun hlong => ?_
          have hfail : (c.exchange (0 + d) o.ioTimeout hello).2 =
              some (0 + d, .error (.protocol (.tooLarge hello.length))) := by
            simp only [Connection.exchange, Frame.encode, if_neg hlong]
          rw [hfail] at hex
          cases hex
          cases hmap
        obtain ⟨c', hecho, hpeer, hinbox, -⟩ := Connection.exchange_echo (c := c) (0 + d)
          (hp.reply _) hp.deadline hp.readChunk hp.writeChunk rfl hfits
        rw [hecho] at hnet
        intro conn hm
        have hm : conn ∈ ([_] : List Connection) := congrArg Network.connections hnet ▸ hm
        rw [List.mem_singleton.1 hm]
        exact ⟨hpeer, hinbox⟩

/-- **A network of echoing peers is dependable**, if each attempt ends. -/
theorem Dependable.of_echoes {o : ClientOptions} {size : PayloadSize} {peer : Nat → Peer}
    (hends : ∀ n, ((peer n).attempt o).ending ≠ none)
    (hp : ∀ n, (peer n).accepts o = true → (peer n).Echoes o size) : Dependable o size peer where
  ends := hends
  faithful n t latency h conn hm := by
    have hechoes := hp n (by rw [Peer.accepts, h])
    obtain ⟨hpeer, hinbox⟩ := Peer.attempt_echoes hechoes h conn hm
    exact Connection.echo_faithful t (hpeer ▸ hechoes) hinbox

end EchoLoad
