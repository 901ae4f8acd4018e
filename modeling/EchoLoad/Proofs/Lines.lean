import EchoLoad.Proofs.ResultFiles
/-!
How many lines a result file has. A decimal never breaks a line, so a series has one line for each
of its values. Main statements: `Output.lineCount_seriesText` and `Output.lines_of_writeSeries`.
-/

namespace EchoLoad

/-- The lines of a text; a newline ends each of them. -/
def lineCount (text : String) : Nat := text.toList.count '\n'

theorem lineCount_append (a b : String) : lineCount (a ++ b) = lineCount a + lineCount b := by
  simp only [lineCount, String.toList_append, List.count_append]

theorem lineCount_line {a : String} (h : '\n' ∉ a.toList) : lineCount (a ++ "\n") = 1 := by
  rw [lineCount_append, lineCount, List.count_eq_zero_of_not_mem h]
  rfl

theorem lineCount_join {lines : List String} (h : ∀ a ∈ lines, lineCount a = 1) :
    lineCount (String.join lines) = lines.length := by
  induction lines with
  | nil => rfl
  | cons a lines ih =>
    rw [String.join_cons, lineCount_append, h a List.mem_cons_self,
      ih fun b hb => h b (List.mem_cons_of_mem _ hb), List.length_cons, Nat.add_comm]

/-! ## Decimals -/

namespace Decimal

theorem newline_not_mem_positional (d : Digits) : '\n' ∉ (positional d).toList := by
  have hdigit : '\n' ∉ (toString d.digits).toList := fun h => by
    have := Output.toList_repr_digits d.digits _ h
    simp [Char.isDigit] at this
  have hzero : ∀ n, '\n' ∉ List.replicate n '0' := by simp
  unfold positional
  dsimp only
  split
  · rw [String.toList_ofList, List.mem_append]
    exact not_or.2 ⟨hdigit, hzero _⟩
  · have htext : ∀ n, '\n' ∉ List.replicate n '0' ++ (toString d.digits).toList := by
      intro n
      rw [List.mem_append]
      exact not_or.2 ⟨hzero n, hdigit⟩
    rw [String.toList_ofList, List.mem_append, List.mem_cons]
    rintro (h | h | h)
    · exact htext _ (List.mem_of_mem_take h)
    · cases h
    · exact htext _ (List.mem_of_mem_drop h)

theorem newline_not_mem_signed (negative : Bool) {text : String} (h : '\n' ∉ text.toList) :
    '\n' ∉ (signed negative text).toList := by
  unfold signed
  split
  · rw [String.toList_append, List.mem_append]
    exact not_or.2 ⟨by decide, h⟩
  · exact h

theorem newline_not_mem_fixed (places : Nat) (x : Float) : '\n' ∉ (fixed places x).toList := by
  unfold fixed
  split
  · decide
  · exact newline_not_mem_signed _ (by decide)
  · exact newline_not_mem_signed _ (newline_not_mem_positional _)

/-- **A decimal stays on its line.** -/
theorem newline_not_mem_shortest (x : Float) : '\n' ∉ (shortest x).toList := by
  unfold shortest
  split
  · decide
  · exact newline_not_mem_signed _ (by decide)
  · refine newline_not_mem_signed _ ?_
    split
    · decide
    · exact newline_not_mem_positional _

end Decimal

namespace Output

theorem newline_not_mem_record (size bytes : Nat) (elapsed : Duration) :
    '\n' ∉ (throughputRecord size bytes elapsed).toList := by
  have hdigits : ∀ n : Nat, '\n' ∉ (toString n).toList := fun n h => by
    have hdigit := toList_repr_digits n _ h
    simp [Char.isDigit] at hdigit
  intro hmem
  simp only [throughputRecord, String.toList_append, List.mem_append, or_assoc] at hmem
  rcases hmem with h | h | h | h | h
  · exact hdigits _ h
  · exact absurd h (by decide)
  · exact hdigits _ h
  · exact absurd h (by decide)
  · exact Decimal.newline_not_mem_fixed 6 _ h

/-- **One line for each value.** -/
theorem lineCount_seriesText (values : List Float) :
    lineCount (seriesText values) = values.length := by
  rw [seriesText, lineCount_join, List.length_map]
  intro a ha
  obtain ⟨x, -, rfl⟩ := List.mem_map.1 ha
  exact lineCount_line (Decimal.newline_not_mem_shortest x)

/-! ## Files and their lines -/

/-- The file of a series has `n` lines. -/
def Lines (o : Output) (series : String) (n : Nat) (s : Store) : Prop :=
  ∃ text, s.readText (o.path series "csv") = .ok text ∧ lineCount text = n

variable {o : Output} {s s' : Store} {a b x : String} {n : Nat} {values : List Float}

theorem lines_of_writeSeries (ha : Plain a) (h : o.writeSeries a values s = .ok s') :
    o.Lines a values.length s' :=
  ⟨_, Store.write_readText (path_getLast? ha (by decide)) h, lineCount_seriesText values⟩

theorem Lines.keep (h : o.Lines b n s) (ha : Plain a) (hx : Plain x) (hb : Plain b)
    (hne : tail a x ≠ tail b "csv") (hp : s.Puts (o.path a x) s') : o.Lines b n s' := by
  obtain ⟨text, hr, hn⟩ := h
  exact ⟨text, readText_of_puts ha hx hb (by decide) hne hp hr, hn⟩

theorem Lines.puts (h : o.Lines b n s) (ha : Plain a) (hb : Plain b) (hne : a ≠ b)
    (hp : s.Puts (o.path a "csv") s') : o.Lines b n s' :=
  h.keep ha (by decide) hb (mt tail_csv_inj.1 hne) hp

end Output

end EchoLoad
