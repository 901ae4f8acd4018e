import EchoLoad.Proofs.Lines
/-!
The records of a throughput file, and what is read back from them. Size and bytes stand before the
first two commas of a line, so the text of the file tells them of every phase, in order. Main
statements: `Sweep.readRecords_records` and `Output.Records.of_text`.
-/

namespace EchoLoad.Sweep

/-- The records of some phases, one a line: size, bytes and seconds. -/
def records (phases : List PhaseSummary) : String :=
  String.join (phases.map fun p =>
    s!"{p.size}, {p.bytes}, {Decimal.fixed 6 p.recordedTime.seconds}\n")

/-- The number that some decimal digits stand for. -/
def readNumber (digits : List Char) : Option Nat :=
  if digits ≠ [] ∧ digits.all Char.isDigit then some (Nat.ofDigitChars 10 digits 0) else none

def readRecord (line : List Char) : Option (Nat × Nat) :=
  match line.splitOn ',' with
  | size :: (' ' :: bytes) :: _ => do return (← readNumber size, ← readNumber bytes)
  | _ => none

/-- Size and bytes of each record, if every line can be read and the last one has its newline. -/
def readLines : List (List Char) → Option (List (Nat × Nat))
  | [] => none
  | [rest] => if rest = [] then some [] else none
  | line :: lines => do return (← readRecord line) :: (← readLines lines)

def readRecords (text : String) : Option (List (Nat × Nat)) := readLines (text.toList.splitOn '\n')

theorem records_cons (p : PhaseSummary) (phases : List PhaseSummary) :
    records (p :: phases) =
      throughputRecord p.size p.bytes p.recordedTime ++ "\n" ++ records phases :=
  String.join_cons

theorem records_append (phases : List PhaseSummary) (p : PhaseSummary) :
    records (phases ++ [p]) =
      records phases ++ (throughputRecord p.size p.bytes p.recordedTime ++ "\n") := by
  induction phases with
  | nil => rw [List.nil_append, records_cons, records, List.map_nil, String.join_nil,
      String.append_empty, String.empty_append]
  | cons q phases ih =>
    rw [List.cons_append, records_cons, ih, records_cons]
    simp only [String.append_assoc]

theorem lineCount_records (phases : List PhaseSummary) :
    lineCount (records phases) = phases.length := by
  induction phases with
  | nil => rfl
  | cons p phases ih =>
    rw [records_cons, lineCount_append, ih, List.length_cons, Nat.add_comm,
      lineCount_line (Output.newline_not_mem_record p.size p.bytes p.recordedTime)]

theorem comma_not_mem_toString (n : Nat) : ',' ∉ (toString n).toList := fun h => by
  have hdigit := Output.toList_repr_digits n _ h
  simp [Char.isDigit] at hdigit

theorem readNumber_toString (n : Nat) : readNumber (toString n).toList = some n := by
  have hdigits : (toString n).toList.all Char.isDigit = true :=
    List.all_eq_true.2 (Output.toList_repr_digits n)
  rw [Nat.toString_eq_ofList_toDigits, String.toList_ofList] at hdigits ⊢
  rw [readNumber, if_pos ⟨Nat.toDigits_ne_nil, hdigits⟩, Nat.ofDigitChars_ten_toDigits]

/-- **A record tells its size and its bytes.** -/
theorem readRecord_record (size bytes : Nat) (elapsed : Duration) :
    readRecord (throughputRecord size bytes elapsed).toList = some (size, bytes) := by
  have htext : (throughputRecord size bytes elapsed).toList =
      (toString size).toList ++ ',' :: (' ' :: (toString bytes).toList ++
        ',' :: (' ' :: (Decimal.fixed 6 elapsed.seconds).toList)) := by
    have hparts : throughputRecord size bytes elapsed =
        toString size ++ ", " ++ toString bytes ++ ", " ++ Decimal.fixed 6 elapsed.seconds := rfl
    simp [hparts, String.toList_append]
  have hbytes : ',' ∉ ' ' :: (toString bytes).toList :=
    mt List.mem_cons.1 (not_or.2 ⟨by decide, comma_not_mem_toString bytes⟩)
  rw [readRecord, htext, List.splitOn_append_cons_self_of_not_mem (comma_not_mem_toString size),
    List.splitOn_append_cons_self_of_not_mem hbytes]
  simp only [readNumber_toString]
  rfl

theorem readLines_cons (line : List Char) {lines : List (List Char)} (h : lines ≠ []) :
    readLines (line :: lines) = do return (← readRecord line) :: (← readLines lines) := by
  obtain ⟨next, lines, rfl⟩ := List.exists_cons_of_ne_nil h
  rfl

/-- **The records tell size and bytes of every phase, in order.** -/
theorem readRecords_records (phases : List PhaseSummary) :
    readRecords (records phases) = some (phases.map fun p => (p.size, p.bytes)) := by
  induction phases with
  | nil => rfl
  | cons p phases ih =>
    have hline := Output.newline_not_mem_record p.size p.bytes p.recordedTime
    have hsplit : (records (p :: phases)).toList.splitOn '\n' =
        (throughputRecord p.size p.bytes p.recordedTime).toList ::
          (records phases).toList.splitOn '\n' := by
      rw [records_cons, String.append_assoc, String.toList_append, String.toList_append]
      exact List.splitOn_append_cons_self_of_not_mem hline _
    rw [readRecords] at ih ⊢
    rw [hsplit, readLines_cons _ (List.splitOn_ne_nil _ _), readRecord_record, ih]
    rfl

end Sweep

/-- The throughput file has the records of some phases and nothing else. They are its lines, in the
order of the phases, and size and bytes of a phase are read back from its line. -/
structure Output.Records (o : Output) (phases : List PhaseSummary) (s : Store) : Prop where
  text : s.readText (o.path "throughput" "csv") = .ok (Sweep.records phases)
  lines : lineCount (Sweep.records phases) = phases.length
  pairs : Sweep.readRecords (Sweep.records phases) = some (phases.map fun p => (p.size, p.bytes))

theorem Output.Records.of_text {o : Output} {phases : List PhaseSummary} {s : Store}
    (h : s.readText (o.path "throughput" "csv") = .ok (Sweep.records phases)) :
    o.Records phases s :=
  ⟨h, Sweep.lineCount_records phases, Sweep.readRecords_records phases⟩

end EchoLoad
