import EchoLoad.Proofs.Store
import EchoLoad.Report.Files
/-!
The result files of one run lie side by side: their paths differ only behind the name of the run,
so each leads to a place of its own and keeps its text when another is written. Main statements:
`Output.locate_inj` and `Output.readText_of_puts`.
-/

namespace EchoLoad

/-! ## Paths with a common front -/

namespace Path

theorem pieces_of_not_mem {l : List Char} (h : '/' ∉ l) : pieces l = [l] := by
  induction l with
  | nil => rfl
  | cons c l ih =>
    obtain ⟨hc, hl⟩ := not_or.1 (mt List.mem_cons.2 h)
    rw [pieces, if_neg (Ne.symm hc), ih hl]

theorem pieces_append (a : List Char) :
    ∃ front last, '/' ∉ last ∧ ∀ b, '/' ∉ b → pieces (a ++ b) = front ++ [last ++ b] := by
  induction a with
  | nil => exact ⟨[], [], List.not_mem_nil, fun b hb => pieces_of_not_mem hb⟩
  | cons c a ih =>
    obtain ⟨front, last, hlast, h⟩ := ih
    by_cases hc : c = '/'
    · refine ⟨[] :: front, last, hlast, fun b hb => ?_⟩
      rw [List.cons_append, pieces, if_pos hc, h b hb, List.cons_append]
    · cases front with
      | nil =>
        refine ⟨[], c :: last, ?_, fun b hb => ?_⟩
        · rw [List.mem_cons]
          exact not_or.2 ⟨Ne.symm hc, hlast⟩
        · rw [List.cons_append, pieces, if_neg hc, h b hb]
          rfl
      | cons p front =>
        refine ⟨(c :: p) :: front, last, hlast, fun b hb => ?_⟩
        rw [List.cons_append, pieces, if_neg hc, h b hb]
        rfl

theorem components_append (pre : String) :
    ∃ steps stem, '/' ∉ stem.toList ∧ ∀ tail : String, '/' ∉ tail.toList → tail ≠ "" →
      components (pre ++ tail) = steps ++ [stem ++ tail] := by
  obtain ⟨front, last, hfree, h⟩ := pieces_append pre.toList
  refine ⟨(front.filter (· ≠ [])).map String.ofList, String.ofList last, ?_,
    fun tail hslash hne => ?_⟩
  · rwa [String.toList_ofList]
  have htail : last ++ tail.toList ≠ [] :=
    fun h => hne (by simpa using (List.append_eq_nil_iff.1 h).2)
  have hlast : [last ++ tail.toList].filter (· ≠ []) = [last ++ tail.toList] :=
    List.filter_cons_of_pos (decide_eq_true htail)
  rw [components, String.toList_append, h _ hslash, List.filter_append, hlast, List.map_append,
    List.map_singleton, String.ofList_append, String.ofList_toList]

theorem isAbsolute_append {tail : String} (h : tail.toList.head? = some '-') (pre : String) :
    isAbsolute (pre ++ tail) = isAbsolute pre := by
  rw [isAbsolute, isAbsolute, String.toList_append]
  cases pre.toList with
  | nil => simp [h]
  | cons c rest => rfl

end Path

/-! ## The names of result files -/

namespace Output

/-- What the path of a result file has behind the name of the run. -/
def tail (series extension : String) : String := s!"-{series}.{extension}"

variable {o : Output} {s s' : Store} {a b x y text : String} {m n : Nat}

theorem toList_tail (a x : String) : (tail a x).toList = '-' :: (a.toList ++ '.' :: x.toList) := by
  have h : tail a x = "-" ++ a ++ "." ++ x := rfl
  simp [h, String.toList_append]

theorem tail_ne_empty (a x : String) : tail a x ≠ "" := by
  intro h
  have hlist := congrArg String.toList h
  simp [toList_tail] at hlist

theorem tail_csv_inj : tail a "csv" = tail b "csv" ↔ a = b := by
  rw [← String.toList_inj, toList_tail, toList_tail, List.cons.injEq, List.append_left_inj,
    String.toList_inj]
  simp

theorem tail_csv_ne_toml (a b : String) : tail a "csv" ≠ tail b "toml" := by
  intro h
  have hlast := congrArg (fun t => t.toList.getLast?) h
  simp [toList_tail, List.getLast?_cons, List.getLast?_append] at hlast

/-- The series is part of one file name. -/
def Plain (series : String) : Prop := '/' ∉ series.toList

instance (series : String) : Decidable (Plain series) := inferInstanceAs (Decidable (_ ∉ _))

theorem not_mem_tail (ha : Plain a) (hx : Plain x) : '/' ∉ (tail a x).toList := by
  rw [toList_tail]
  simp only [List.mem_cons, List.mem_append, not_or]
  exact ⟨by decide, ha, by decide, hx⟩

theorem not_mem_append_tail {stem : String} (hstem : '/' ∉ stem.toList) (ha : Plain a)
    (hx : Plain x) : '/' ∉ (stem ++ tail a x).toList := by
  rw [String.toList_append, List.mem_append]
  exact not_or.2 ⟨hstem, not_mem_tail ha hx⟩

theorem toList_repr_digits (n : Nat) : ∀ c ∈ (toString n).toList, c.isDigit = true := by
  intro c hc
  rw [Nat.toString_eq_ofList_toDigits, String.toList_ofList] at hc
  exact Nat.isDigit_of_mem_toDigits (by decide) (by decide) hc

theorem plain_latencies (n : Nat) : Plain s!"msg-lat-{n}" := by
  have hdigit : '/' ∉ (toString n).toList := fun h => by
    have := toList_repr_digits n _ h
    simp [Char.isDigit] at this
  change '/' ∉ ("msg-lat-" ++ toString n).toList
  rw [String.toList_append, List.mem_append]
  exact not_or.2 ⟨by decide, hdigit⟩

theorem latencies_inj : s!"msg-lat-{m}" = s!"msg-lat-{n}" ↔ m = n := by
  refine ⟨fun h => ?_, fun h => by rw [h]⟩
  have hdigits : Nat.toDigits 10 m = Nat.toDigits 10 n := by
    have h : "msg-lat-" ++ toString m = "msg-lat-" ++ toString n := h
    rwa [String.append_right_inj, Nat.toString_eq_ofList_toDigits, Nat.toString_eq_ofList_toDigits,
      String.ofList_inj] at h
  have hvalue := congrArg (Nat.ofDigitChars 10 · 0) hdigits
  simpa only [Nat.ofDigitChars_ten_toDigits] using hvalue

theorem latencies_ne {series : String} (h : series.toList.head? ≠ some 'm') (n : Nat) :
    s!"msg-lat-{n}" ≠ series := by
  intro hn
  have hhead : ("msg-lat-" ++ toString n).toList.head? = some 'm' := by
    rw [String.toList_append]
    rfl
  exact h (hn ▸ hhead)

/-! ## Where they lie -/

theorem path_eq_join (o : Output) (a x : String) :
    o.path a x = Path.join o.dir (o.name ++ tail a x) := by
  change Path.join o.dir (o.name ++ "-" ++ a ++ "." ++ x) =
    Path.join o.dir (o.name ++ ("-" ++ a ++ "." ++ x))
  simp only [String.append_assoc]

/-- The paths of a run share what comes before their tails. -/
theorem exists_path_eq (o : Output) : ∃ pre, ∀ a x, o.path a x = pre ++ tail a x := by
  have habs : ∀ a x : String, Path.isAbsolute (o.name ++ tail a x) = Path.isAbsolute o.name :=
    fun a x => Path.isAbsolute_append (by simp [toList_tail]) _
  by_cases h1 : Path.isAbsolute o.name || o.dir = ""
  · refine ⟨o.name, fun a x => ?_⟩
    rw [path_eq_join, Path.join, habs, if_pos h1]
  · by_cases h2 : o.dir.toList.getLast? = some '/'
    · refine ⟨o.dir ++ o.name, fun a x => ?_⟩
      rw [path_eq_join, Path.join, habs, if_neg h1, if_pos h2, String.append_assoc]
    · refine ⟨o.dir ++ "/" ++ o.name, fun a x => ?_⟩
      rw [path_eq_join, Path.join, habs, if_neg h1, if_neg h2, ← String.append_assoc]

theorem path_getLast? (ha : Plain a) (hx : Plain x) :
    (o.path a x).toList.getLast? ≠ some '/' := by
  obtain ⟨pre, hpre⟩ := o.exists_path_eq
  intro h
  rw [hpre, String.toList_append, List.getLast?_append, toList_tail, List.getLast?_cons,
    Option.some_or, ← List.getLast?_cons, ← toList_tail] at h
  exact not_mem_tail ha hx (List.mem_of_getLast? h)

end Output

theorem Store.enter_ok {s : Store} {l l' : Location} {name : String} (h : s.enter l name = .ok l')
    (hdot : name ≠ ".") (hdots : name ≠ "..") : l' = l ++ [name] := by
  rw [Store.enter, Store.enter_directory h] at h
  dsimp only at h
  rw [if_neg hdot, if_neg hdots] at h
  split at h <;> cases h
  rfl

namespace Output

variable {o : Output} {s s' : Store} {a b x y text : String}

theorem append_tail_ne (stem a x : String) {name : String} (h : '-' ∉ name.toList) :
    stem ++ tail a x ≠ name := by
  rintro rfl
  exact h (by simp [String.toList_append, toList_tail])

/-- **The result files of a run lie side by side**, with a common front to their names. -/
theorem exists_place (o : Output) (s : Store) :
    ∃ (place : Except IoError Location) (stem : String), '/' ∉ stem.toList ∧
      ∀ {a x : String} {l : Location}, Plain a → Plain x → s.locate (o.path a x) = .ok l →
        ∃ dir, place = .ok dir ∧ l = dir ++ [stem ++ tail a x] := by
  obtain ⟨pre, hpre⟩ := o.exists_path_eq
  obtain ⟨steps, stem, hstem, hsteps⟩ := Path.components_append pre
  refine ⟨s.follow (s.start pre) steps, stem, hstem, fun {a x l} ha hx h => ?_⟩
  have hstart : s.start (pre ++ tail a x) = s.start pre := by
    rw [Store.start, Store.start, Path.isAbsolute_append (by simp [toList_tail])]
  rw [hpre, Store.locate, hstart, hsteps _ (not_mem_tail ha hx) (tail_ne_empty a x),
    Store.follow, List.foldlM_append] at h
  obtain ⟨dir, hdir, h⟩ := bind_eq_ok.1 h
  simp only [List.foldlM_cons, List.foldlM_nil, bind_pure] at h
  exact ⟨dir, hdir, Store.enter_ok h (append_tail_ne _ _ _ (by decide))
    (append_tail_ne _ _ _ (by decide))⟩

/-- **Each result file has a place of its own.** -/
theorem locate_inj {l : Location} (ha : Plain a) (hx : Plain x) (hb : Plain b) (hy : Plain y)
    (h : s.locate (o.path a x) = .ok l) (h' : s.locate (o.path b y) = .ok l) :
    tail a x = tail b y := by
  obtain ⟨place, stem, -, hplace⟩ := o.exists_place s
  obtain ⟨dir, hdir, rfl⟩ := hplace ha hx h
  obtain ⟨dir', hdir', he⟩ := hplace hb hy h'
  rw [hdir] at hdir'
  cases hdir'
  have hname := List.singleton_inj.1 (List.append_cancel_left he)
  exact (String.append_right_inj _).1 hname

/-- **A result file keeps its text when another is written.** -/
theorem readText_of_puts (ha : Plain a) (hx : Plain x) (hb : Plain b) (hy : Plain y)
    (hne : tail a x ≠ tail b y) (h : s.Puts (o.path a x) s')
    (hr : s.readText (o.path b y) = .ok text) : s'.readText (o.path b y) = .ok text :=
  h.readText hr fun _ hl hl' => hne (locate_inj ha hx hb hy hl hl')

end Output

end EchoLoad
