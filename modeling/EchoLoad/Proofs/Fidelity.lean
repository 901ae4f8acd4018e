import EchoLoad.Proofs.Calls
import EchoLoad.Proofs.CarriedFrames
/-!
The bytes behind an open client. Whatever is on its connection, also replies nobody asked for,
between two calls it has read exactly what it wrote: the frames of its handshake and of the rounds
that were echoed. Main statement: `echo_fidelity`.
-/

namespace EchoLoad.Client

variable {o : ClientOptions} {id : Nat} {turns : List Turn} {payloads : List Bytes} {c : Client}
  {now : Duration} {net net' : Network} {a : Action} {call : Call}

def echoed? (a : Action) (ending : Ending) : Option Bytes :=
  match a, ending with
  | .echo payload, some (_, .ok _) => some payload
  | _, _ => none

/-- The payloads of the rounds that were echoed, in the order of the calls. -/
def echoes (o : ClientOptions) (turns : List Turn) : List Bytes :=
  turns.reverse.filterMap fun t => echoed? t.action (t.call o).ending

theorem echoes_cons (o : ClientOptions) (t : Turn) (turns : List Turn) :
    echoes o (t :: turns) = echoes o turns ++ (echoed? t.action (t.call o).ending).toList := by
  simp only [echoes, List.reverse_cons, List.filterMap_append]
  cases h : echoed? t.action (t.call o).ending with
  | none => simp [h]
  | some payload => simp [h]

/-- A client for which some payloads were echoed: none before it connects, and as long as it holds a
connection that has carried the handshake and these payloads. -/
structure Carried (o : ClientOptions) (payloads : List Bytes) (c : Client) (net : Network) :
    Prop where
  nothing : c.state = .unconnected → payloads = []
  carriesFrames : ∀ n conn, c.HoldsAt net n conn → conn.CarriesFrames (o.handshake.toList ++ payloads)

theorem Carried.of_gone (hstate : c.state ≠ .unconnected) (hopen : c.isOpen = false) :
    Carried o payloads c net := by
  constructor
  · exact fun h => absurd h hstate
  · intro n conn hheld
    exact absurd (hheld.isOpen.symm.trans hopen) Bool.noConfusion

theorem Carried.of_holds {n : Nat} {conn : Connection} (hheld : c.HoldsAt net n conn)
    (hcarries : conn.CarriesFrames (o.handshake.toList ++ payloads)) : Carried o payloads c net := by
  constructor
  · intro hstate
    exact absurd hheld.isOpen (by simp [isOpen, hstate])
  · intro m conn' hheld'
    have hm : some n = some m := hheld.stream.symm.trans hheld'.stream
    cases hm
    have hconn : some conn = some conn' := hheld.connection.symm.trans hheld'.connection
    cases hconn
    exact hcarries

theorem JustConnected.carriesFrames {conn : Connection} (h : JustConnected o conn) :
    conn.CarriesFrames o.handshake.toList := by
  have hnew : ∀ peer, ({ peer, fate := .open } : Connection).CarriesFrames [] :=
    fun peer => ⟨[], rfl, rfl, rfl⟩
  cases h with
  | plain hplain =>
    rw [hplain]
    exact hnew _
  | handshake hhello he =>
    rw [hhello]
    exact Connection.exchange_carriesFrames (hnew _) he

/-- A call that ends carries the payload of a round that is echoed, and nothing otherwise. -/
theorem Does.carried (hdoes : Does o c now net a call) (hended : call.ending ≠ none)
    (h : Carried o payloads c net) :
    Carried o (payloads ++ (echoed? a call.ending).toList) call.client call.network := by
  cases hdoes with
  | misplaced =>
    have hnone : echoed? a (some (now, .error (.invalidState c.state))) = none := by
      cases a <;> rfl
    rw [hnone, Option.toList_none, List.append_nil]
    exact h
  | pending | unanswered | hung => exact absurd rfl hended
  | declined | broken => exact .of_gone ClientState.noConfusion rfl
  | shut => exact .of_gone ClientState.noConfusion rfl
  | connected hstate hfate honly =>
    rw [h.nothing hstate]
    refine .of_holds ⟨rfl, rfl, attempt_getElem? net _, hfate⟩ ?_
    show Connection.CarriesFrames _ (o.handshake.toList ++ [])
    rw [List.append_nil]
    exact honly.carriesFrames
  | @echoed n conn conn' payload _ _ hheld hfate he =>
    refine .of_holds ⟨rfl, hheld.stream, modify_getElem? hheld.connection _, hfate⟩ ?_
    show Connection.CarriesFrames _ (o.handshake.toList ++ (payloads ++ [payload]))
    rw [← List.append_assoc]
    exact Connection.exchange_carriesFrames (h.carriesFrames n conn hheld) he
  | idle =>
    show Carried o (payloads ++ []) c net
    rw [List.append_nil]
    exact h
  | reset =>
    show Carried o (payloads ++ []) c.resetCounters net
    rw [List.append_nil]
    constructor
    · exact h.nothing
    · intro n conn hheld
      exact h.carriesFrames n conn ⟨hheld.isOpen, hheld.stream, hheld.connection, hheld.fate⟩

theorem Carried.meanwhile (h : Carried o payloads c net) (hc : c.Sound net)
    (halone : c.LeftAlone net net') : Carried o payloads c net' := by
  constructor
  · exact h.nothing
  · cases hc with
    | free hopen =>
      intro n conn hheld
      exact absurd (hheld.isOpen.symm.trans hopen) Bool.noConfusion
    | held hheld =>
      obtain ⟨conn', hconn', hfate, hwritten, htaken⟩ := halone _ _ hheld.stream hheld.connection
      have hheld' : c.HoldsAt net' _ conn' :=
        ⟨hheld.isOpen, hheld.stream, hconn', hfate.trans hheld.fate⟩
      exact (of_holds hheld' ((h.carriesFrames _ _ hheld).congr hwritten htaken)).carriesFrames

theorem History.carried (h : History o id turns c net) : Carried o (echoes o turns) c net := by
  induction h with
  | new net =>
    constructor
    · exact fun _ => rfl
    · intro n conn hheld
      cases hheld.isOpen
  | @call _ t h hended ih =>
    rw [echoes_cons]
    exact (perform_does o t.now t.action h.sound).carried hended ih
  | meanwhile h halone ih => exact ih.meanwhile h.sound halone

/-- **An open client has read what it wrote.** After any calls on a client, whatever its peer sent in
whatever pieces and whatever was left to be read before a call, an open client holds a connection on
which the bytes accepted and the bytes consumed are both the frames of the handshake, if there is
one, and of the rounds that were echoed, in their order. -/
theorem echo_fidelity (h : History o id turns c net) (hopen : c.isOpen = true) :
    ∃ n conn frames, c.stream = some n ∧ net.connections[n]? = some conn ∧
      (o.handshake.toList ++ echoes o turns).mapM Frame.encode = .ok frames ∧
      conn.accepted = frames.flatten ∧ conn.consumed = frames.flatten := by
  cases h.sound with
  | free hclosed => exact absurd (hopen.symm.trans hclosed) Bool.noConfusion
  | @held n conn hheld =>
    obtain ⟨frames, hframes, haccepted, hconsumed⟩ := h.carried.carriesFrames n conn hheld
    exact ⟨n, conn, frames, hheld.stream, hheld.connection, hframes, haccepted, hconsumed⟩

/-- The reply to the handshake has a second frame behind it, which then passes for the echo of the
first round; the echo of that round is left over, and the client has consumed none of it. -/
theorem echo_fidelity_stale :
    let peer : Peer :=
      { replies := [.raw (Frame.wire [1] ++ Frame.wire [7, 8]) false]
        readChunk := some 3
        writeChunk := some 2 }
    let o : ClientOptions := { handshake := some [1] }
    let first : Turn := ⟨{ id := 5 }, { rest := peer }, 0, .connect⟩
    let second : Turn := ⟨(first.call o).client, (first.call o).network, 9000000, .echo [7, 8]⟩
    ∃ conn, (second.call o).network.connections[0]? = some conn ∧ conn.inbox ≠ [] ∧
      conn.accepted = [0, 0, 0, 1, 1, 0, 0, 0, 2, 7, 8] ∧
      conn.consumed = [0, 0, 0, 1, 1, 0, 0, 0, 2, 7, 8] := by
  intro peer o first second
  have h : History o 5 [second, first] (second.call o).client (second.call o).network := by
    apply History.call
    · apply History.call
      · exact .new _
      · decide +kernel
    · decide +kernel
  obtain ⟨n, conn, frames, hn, hconn, hframes, haccepted, hconsumed⟩ :=
    echo_fidelity h (by decide +kernel)
  have hzero : (second.call o).client.stream = some 0 := by decide +kernel
  cases hzero.symm.trans hn
  have hpayloads : o.handshake.toList ++ echoes o [second, first] = [[1], [7, 8]] := by
    decide +kernel
  rw [hpayloads, Frame.mapM_encode (by decide)] at hframes
  cases hframes
  have hinbox : ((second.call o).network.connections[0]?.any fun conn => conn.inbox ≠ []) = true := by
    decide +kernel
  rw [hconn] at hinbox
  exact ⟨conn, hconn, of_decide_eq_true hinbox, haccepted, hconsumed⟩

end EchoLoad.Client
