import EchoLoad.Proofs.Lines
import Mathlib.Data.List.DropRight
/-!
The result files after any calls, in whichever order. What a file holds is the text of the last call
that replaced it and the records added since; a call that fails leaves every file as it is. Main
statement: `files_settled`.
-/

namespace EchoLoad

inductive OutputCall where
  | series (name : String) (values : List Float)
  | startThroughput
  | appendThroughput (size bytes : Nat) (elapsed : Duration)
  | summary (summary : RunSummary)

namespace OutputCall

/-- What a call makes the whole text of its file; nothing if it adds to it. -/
def text? : OutputCall → Option String
  | series _ values => some (Output.seriesText values)
  | startThroughput => some ""
  | appendThroughput .. => none
  | summary s => some s.text

/-- What a call adds to its file. -/
def line : OutputCall → String
  | appendThroughput size bytes elapsed => throughputRecord size bytes elapsed ++ "\n"
  | _ => ""

/-- A summary can be written if its numbers are not too large. -/
def Encodes : OutputCall → Prop
  | summary s => ∀ n ∈ s.integers, n < RunSummary.integerBound
  | _ => True

def result (c : OutputCall) (old : Option Content) : Content :=
  match c.text? with
  | some text => .text text
  | none => (old.getD (.text "")).append c.line

end OutputCall

/-- What a file holds after some calls on it that have succeeded: what the last call that replaced
it has made its text, and the lines added since. -/
def settled (initial : Option Content) (done : List OutputCall) : Option Content :=
  let added := String.join ((done.rtakeWhile (·.text? = none)).map OutputCall.line)
  match (done.filterMap OutputCall.text?).getLast? with
  | some text => some (.text (text ++ added))
  | none => if done.isEmpty then initial else some ((initial.getD (.text "")).append added)

namespace Output

def target (o : Output) : OutputCall → String
  | .series name _ => o.path name "csv"
  | .startThroughput => o.path "throughput" "csv"
  | .appendThroughput .. => o.path "throughput" "csv"
  | .summary _ => o.path "summary" "toml"

def perform (o : Output) (s : Store) : OutputCall → Except IoError Store
  | .series name values => o.writeSeries name values s
  | .startThroughput => o.startThroughput s
  | .appendThroughput size bytes elapsed => o.appendThroughput size bytes elapsed s
  | .summary summary => o.writeSummary summary s

def call (o : Output) (s : Store) (c : OutputCall) : Except IoError Unit × Store :=
  match o.perform s c with
  | .ok s' => (.ok (), s')
  | .error e => (.error e, s)

def after (o : Output) (s : Store) (calls : List OutputCall) : Store :=
  calls.foldl (fun s c => (o.call s c).2) s

def successes (o : Output) : Store → List OutputCall → List OutputCall
  | _, [] => []
  | s, c :: rest =>
    match o.call s c with
    | (.ok (), s') => c :: successes o s' rest
    | (.error _, s') => successes o s' rest

def leadsTo (o : Output) (s : Store) (l : Location) (c : OutputCall) : Bool :=
  s.locate (o.target c) = .ok l

end Output

/-! ## Contents -/

theorem toList_loop (b : ByteArray) (i : Nat) (listed : Bytes) :
    ByteArray.toList.loop b i listed = listed.reverse ++ b.data.toList.drop i := by
  fun_induction ByteArray.toList.loop b i listed with
  | case1 i listed h ih =>
    have hlt : i < b.data.toList.length := h
    rw [ih, List.drop_eq_getElem_cons hlt, List.reverse_cons, List.append_assoc]
    simp [ByteArray.get!, h]
  | case2 i listed h =>
    have hle : b.data.toList.length ≤ i := Nat.le_of_not_lt h
    rw [List.drop_eq_nil_of_le hle, List.append_nil]

theorem Content.append_append (c : Content) (a b : String) :
    (c.append a).append b = c.append (a ++ b) := by
  have hbytes : ∀ t : String, t.toUTF8.toList = t.toByteArray.data.toList := fun t =>
    toList_loop t.toUTF8 0 []
  cases c with
  | text t => rw [append, append, append, String.append_assoc]
  | binary bytes =>
    simp only [append, hbytes, String.toByteArray_append, ByteArray.toList_data_append,
      List.append_assoc]

/-- **One call more.** -/
theorem settled_concat (initial : Option Content) (done : List OutputCall) (c : OutputCall) :
    settled initial (done ++ [c]) = some (c.result (settled initial done)) := by
  cases hc : c.text? with
  | some text => simp [settled, OutputCall.result, hc]
  | none =>
    have hadded : String.join (((done ++ [c]).rtakeWhile (·.text? = none)).map OutputCall.line) =
        String.join ((done.rtakeWhile (·.text? = none)).map OutputCall.line) ++ c.line := by
      rw [List.rtakeWhile_concat, if_pos (decide_eq_true hc), List.map_append, String.join_append]
      simp
    have htexts : (done ++ [c]).filterMap OutputCall.text? = done.filterMap OutputCall.text? := by
      simp [hc]
    have hnonempty : (done ++ [c]).isEmpty = false := by simp
    unfold settled
    rw [hadded, htexts, hnonempty]
    simp only [OutputCall.result, hc]
    cases (done.filterMap OutputCall.text?).getLast? with
    | some text => simp [Content.append, String.append_assoc]
    | none =>
      cases done with
      | nil => simp
      | cons d done => simp [Content.append_append]

/-! ## One call -/

variable {o : Output} {s s' : Store} {c : OutputCall} {calls : List OutputCall} {l : Location}
  {e : IoError}

namespace Output

theorem encode_ok {r : RunSummary} {text : String} : r.encode = .ok text ↔
    (∀ n ∈ r.integers, n < RunSummary.integerBound) ∧ text = r.text := by
  have hall : r.integers.all (· < RunSummary.integerBound) = true ↔
      ∀ n ∈ r.integers, n < RunSummary.integerBound := by simp
  rw [← hall, RunSummary.encode]
  split
  · next h => simp [h, eq_comm]
  · next h => simp [h]

/-- **What it takes for a call to succeed, and what it does.** -/
theorem perform_ok : o.perform s c = .ok s' ↔
    ∃ l, s.writable (o.target c) = .ok l ∧ c.Encodes ∧
      s' = s.put l (.file (c.result (s.content? l))) := by
  cases c with
  | series name values =>
    simp only [perform, writeSeries, Store.write_ok, OutputCall.Encodes, true_and]
    rfl
  | startThroughput =>
    simp only [perform, startThroughput, Store.write_ok, OutputCall.Encodes, true_and]
    rfl
  | appendThroughput size bytes elapsed =>
    simp only [perform, appendThroughput, Store.append_ok, OutputCall.Encodes, true_and]
    rfl
  | summary r =>
    have hwrite : o.perform s (.summary r) = .ok s' ↔
        (∀ n ∈ r.integers, n < RunSummary.integerBound) ∧
          s.write (o.path "summary" "toml") r.text = .ok s' := by
      rw [perform, writeSummary, bind_eq_ok]
      simp only [encode_ok, and_assoc, exists_and_left, exists_eq_left]
    rw [hwrite, Store.write_ok, ← exists_and_left]
    refine exists_congr fun l => ?_
    rw [and_left_comm]
    rfl

theorem call_ok : o.call s c = (.ok (), s') ↔ o.perform s c = .ok s' := by
  unfold call
  cases o.perform s c <;> simp

theorem call_error (h : (o.call s c).1 = .error e) : (o.call s c).2 = s := by
  unfold call at h ⊢
  cases hp : o.perform s c with
  | ok s' => rw [hp] at h; cases h
  | error => rfl

/-- A call puts a file where its path leads, or leaves all as it is. -/
theorem call_cases (o : Output) (s : Store) (c : OutputCall) :
    (∃ l, s.writable (o.target c) = .ok l ∧ c.Encodes ∧
      o.call s c = (.ok (), s.put l (.file (c.result (s.content? l))))) ∨
    ∃ e, o.call s c = (.error e, s) := by
  cases hp : o.perform s c with
  | ok s' =>
    obtain ⟨l, hl, hencodes, rfl⟩ := perform_ok.1 hp
    exact .inl ⟨l, hl, hencodes, call_ok.2 hp⟩
  | error e =>
    refine .inr ⟨e, ?_⟩
    rw [call, hp]

theorem call_puts (h : o.call s c = (.ok (), s')) : s.Puts (o.target c) s' := by
  obtain ⟨l, hl, -, rfl⟩ := perform_ok.1 (call_ok.1 h)
  exact ⟨l, _, hl, rfl⟩

/-- **A call touches its own place only.** -/
theorem call_find? (h : s.locate (o.target c) ≠ .ok l) : (o.call s c).2.find? l = s.find? l := by
  obtain ⟨m, -, -, hc⟩ | ⟨e, hc⟩ := o.call_cases s c
  · rw [hc]
    exact (call_puts hc).find?_ne h
  · rw [hc]

theorem target_ne_empty (o : Output) (c : OutputCall) : o.target c ≠ "" := by
  have hpath : ∀ a x, o.path a x ≠ "" := by
    intro a x h
    obtain ⟨pre, hpre⟩ := o.exists_path_eq
    rw [hpre, String.append_eq_empty_iff] at h
    exact tail_ne_empty a x h.2
  cases c <;> exact hpath _ _

/-- **Which calls succeed.** -/
theorem call_succeeds : (o.call s c).1 = .ok () ↔ c.Encodes ∧ '\x00' ∉ (o.target c).toList ∧
    ∃ l, s.locate (o.target c) = .ok l ∧ ((∃ x, s.find? l = some (.file x)) ∨
      s.find? l = none ∧ s.find? l.dropLast = some .directory) := by
  have husable : Store.usable (o.target c) = .ok () ↔ '\x00' ∉ (o.target c).toList := by
    unfold Store.usable
    split <;> simp_all
  have hcall : (o.call s c).1 = .ok () ↔ ∃ l, s.writable (o.target c) = .ok l ∧ c.Encodes := by
    constructor
    · intro h
      obtain ⟨l, hl, hencodes, -⟩ | ⟨e, hc⟩ := o.call_cases s c
      · exact ⟨l, hl, hencodes⟩
      · rw [hc] at h
        cases h
    · rintro ⟨l, hl, hencodes⟩
      rw [call_ok.2 (perform_ok.2 ⟨l, hl, hencodes, rfl⟩)]
  rw [hcall]
  simp only [Store.writable_ok, husable, ne_eq, target_ne_empty, not_false_eq_true, true_and]
  constructor
  · rintro ⟨l, ⟨hnul, hl⟩, hencodes⟩
    exact ⟨hencodes, hnul, l, hl⟩
  · rintro ⟨hencodes, hnul, l, hl⟩
    exact ⟨l, ⟨hnul, hl⟩, hencodes⟩

/-! ## All calls -/

theorem after_concat (o : Output) (s : Store) (calls : List OutputCall) (c : OutputCall) :
    o.after s (calls ++ [c]) = (o.call (o.after s calls) c).2 :=
  List.foldl_concat ..

theorem successes_append (o : Output) (s : Store) (calls more : List OutputCall) :
    o.successes s (calls ++ more) = o.successes s calls ++ o.successes (o.after s calls) more := by
  induction calls generalizing s with
  | nil => rfl
  | cons c rest ih =>
    have hafter : o.after s (c :: rest) = o.after (o.call s c).2 rest := rfl
    rw [List.cons_append, successes, successes, hafter]
    obtain ⟨l, -, -, hc⟩ | ⟨e, hc⟩ := o.call_cases s c <;> rw [hc] <;> simp [ih]

/-- All that calls do is to put files. -/
theorem after_writes (o : Output) (s : Store) (calls : List OutputCall) :
    Store.Writes (fun path => ∃ c, path = o.target c) s (o.after s calls) := by
  induction calls generalizing s with
  | nil => exact .refl _ _
  | cons c rest ih =>
    refine Store.Writes.trans ?_ (ih (o.call s c).2)
    obtain ⟨l, -, -, hc⟩ | ⟨e, hc⟩ := o.call_cases s c
    · rw [hc]
      exact .single ⟨c, rfl⟩ (call_puts hc)
    · rw [hc]
      exact .refl _ _

/-- **What a file holds after some calls.** -/
theorem after_content (o : Output) (s : Store) (calls : List OutputCall) (l : Location) :
    (o.after s calls).content? l =
      settled (s.content? l) ((o.successes s calls).filter (o.leadsTo s l)) := by
  induction calls using List.reverseRecOn with
  | nil => rfl
  | append_singleton calls c ih =>
    rw [after_concat, successes_append, List.filter_append]
    obtain ⟨m, hm, -, hc⟩ | ⟨e, hc⟩ := o.call_cases (o.after s calls) c
    · have hlocate := (Store.writable_ok.1 hm).2.2.1
      have hfirst := ((o.after_writes s calls).locate_iff _ m).1 hlocate
      have hone : o.successes (o.after s calls) [c] = [c] := by rw [successes, hc]; rfl
      rw [hone, hc]
      dsimp only
      have hleads : o.leadsTo s l c = decide (m = l) := by simp [leadsTo, hfirst]
      by_cases hml : m = l
      · subst hml
        rw [List.filter_cons_of_pos (by simp [hleads]), List.filter_nil, settled_concat,
          Store.content?_put_self (Store.writable_ne_directory hm).1, ih]
      · rw [List.filter_cons_of_neg (by simp [hleads, hml]), List.filter_nil, List.append_nil,
          Store.content?_congr (Store.find?_put _ (Ne.symm hml)), ih]
    · have hnone : o.successes (o.after s calls) [c] = [] := by rw [successes, hc]; rfl
      rw [hnone, hc, ih]
      simp

end Output

/-- **The result files after any calls.** What each file holds is the text of the last call on it that
succeeded and replaced it, or what it held at first if there is none, and behind that the lines of the
calls that have added to it since. Paths lead where they led at first, and the directories are the
same. One call more, whichever it is, touches no place but its own, and nothing at all if it fails; it
succeeds just if its path is that of a file, or of a new file in a directory, and the numbers of a
summary are not too large. A series that has been written is one line for each value, and a record is
one line. -/
theorem files_settled (o : Output) (s : Store) (calls : List OutputCall) :
    let s' := o.after s calls
    (∀ l, s'.content? l = settled (s.content? l) ((o.successes s calls).filter (o.leadsTo s l)) ∧
      (s'.find? l = some .directory ↔ s.find? l = some .directory)) ∧
    (∀ path l, s'.locate path = .ok l ↔ s.locate path = .ok l) ∧
    (∀ c l, s'.locate (o.target c) ≠ .ok l → (o.call s' c).2.find? l = s'.find? l) ∧
    (∀ c e, (o.call s' c).1 = .error e → (o.call s' c).2 = s') ∧
    (∀ c, (o.call s' c).1 = .ok () ↔ c.Encodes ∧ '\x00' ∉ (o.target c).toList ∧
      ∃ l, s'.locate (o.target c) = .ok l ∧ ((∃ x, s'.find? l = some (.file x)) ∨
        s'.find? l = none ∧ s'.find? l.dropLast = some .directory)) ∧
    (∀ name values, (o.call s' (.series name values)).1 = .ok () →
      ∃ (l : Location) (lines : List String), s'.locate (o.path name "csv") = .ok l ∧
        lines.length = values.length ∧ (∀ line ∈ lines, '\n' ∉ line.toList) ∧
        (o.call s' (.series name values)).2.content? l =
          some (.text (String.join (lines.map (· ++ "\n"))))) ∧
    ∀ size bytes elapsed, ∃ record, '\n' ∉ record.toList ∧
      (OutputCall.appendThroughput size bytes elapsed).line = record ++ "\n" := by
  intro s'
  have hwrites := o.after_writes s calls
  refine ⟨fun l => ⟨o.after_content s calls l, hwrites.directory_iff l⟩,
    hwrites.locate_iff, fun c l => Output.call_find?, fun c e => Output.call_error,
    fun c => Output.call_succeeds, fun name values h => ?_, fun size bytes elapsed =>
    ⟨_, Output.newline_not_mem_record size bytes elapsed, rfl⟩⟩
  obtain ⟨l, hl, -, hc⟩ | ⟨e, hc⟩ := o.call_cases s' (.series name values)
  · refine ⟨l, values.map Decimal.shortest, (Store.writable_ok.1 hl).2.2.1, by simp, ?_, ?_⟩
    · intro line hline
      obtain ⟨x, -, rfl⟩ := List.mem_map.1 hline
      exact Decimal.newline_not_mem_shortest x
    · rw [hc, Store.content?_put_self (Store.writable_ne_directory hl).1, List.map_map]
      rfl
  · rw [hc] at h
    cases h

/-- The throughput file is written as a series and then added to. The summary cannot be written where
a directory is, and the join latencies can. -/
theorem files_settled_mixed :
    let o : Output := ⟨"out", "r"⟩
    let s : Store := { entries := [(["out"], .directory), (["out", "r-summary.toml"], .directory)] }
    let s' := o.after s [.series "throughput" [0.5], .appendThroughput 5 9 0]
    let summary : OutputCall := .summary ⟨"r", "ramp", "", "", "", 0, 0, none, none, none, []⟩
    (o.call s' summary).2 = s' ∧
      (o.call s' .startThroughput).2.find? ["out", "r-summary.toml"] = some .directory ∧
      ∃ (l : Location) (lines : List String), lines.length = 2 ∧
        (o.call s' (.series "join-lat" [0.25, 1])).2.content? l =
          some (.text (String.join (lines.map (· ++ "\n")))) := by
  intro o s s' summary
  obtain ⟨-, -, haside, hfailed, -, hseries, -⟩ :=
    files_settled o s [.series "throughput" [0.5], .appendThroughput 5 9 0]
  refine ⟨hfailed summary .isADirectory (by decide +kernel), ?_, ?_⟩
  · rw [haside .startThroughput ["out", "r-summary.toml"] (by decide +kernel)]
    decide +kernel
  · obtain ⟨l, lines, -, hlength, -, hcontent⟩ := hseries "join-lat" [0.25, 1] (by decide +kernel)
    exact ⟨l, lines, hlength, hcontent⟩

end EchoLoad
