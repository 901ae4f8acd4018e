import EchoLoad.Proofs.InternalStep
import EchoLoad.Store
/-!
Writing a file touches its own place only, and no path leads elsewhere for it; what is written can
be read. Main statements: `Store.Puts.find?_ne` and `Store.Puts.locate_iff`, `Store.Writes.find?_eq`
and `Store.Writes.locate_iff` for many files, `Store.writable_put`, `Store.write_readText`,
`Store.append_readText` and `Store.Puts.readText`.
-/

namespace EchoLoad.Store

variable {s s' : Store} {l l' start : Location} {e : Entry} {c : Content}
  {path path' text more : String}

theorem lookup_putEntry (l : Location) (e : Entry) (entries : List (Location × Entry))
    (l' : Location) :
    (putEntry l e entries).lookup l' = if l' = l then some e else entries.lookup l' := by
  have hcons : ∀ (m : Location) (x : Entry) (rest : List (Location × Entry)),
      List.lookup l' ((m, x) :: rest) = if l' = m then some x else List.lookup l' rest := by
    intro m x rest
    rw [List.lookup_cons]
    by_cases h : l' = m
    · simp [h]
    · rw [if_neg h, beq_false_of_ne h]
  induction entries with
  | nil => rw [putEntry, hcons]
  | cons x rest ih =>
    obtain ⟨m, e'⟩ := x
    unfold putEntry
    by_cases hm : m = l
    · rw [if_pos hm, hcons, hcons, hm]
      by_cases h : l' = l <;> simp [h]
    · rw [if_neg hm, hcons, hcons, ih]
      by_cases h : l' = m
      · simp [h, hm]
      · simp [h]

theorem find?_put (s : Store) (h : l' ≠ l) : (s.put l e).find? l' = s.find? l' := by
  simp only [find?, put, lookup_putEntry, if_neg h]

theorem find?_put_self (s : Store) (h : l ≠ []) : (s.put l e).find? l = some e := by
  simp only [find?, put, lookup_putEntry, if_neg h, if_true]

def content? (s : Store) (l : Location) : Option Content :=
  match s.find? l with
  | some (.file c) => some c
  | _ => none

theorem content?_put_self (hl : l ≠ []) (c : Content) :
    (s.put l (.file c)).content? l = some c := by
  rw [content?, find?_put_self s hl]

theorem content?_congr (h : s'.find? l = s.find? l) : s'.content? l = s.content? l := by
  rw [content?, content?, h]

/-- What it takes to write a file. -/
theorem writable_ok : s.writable path = .ok l ↔
    usable path = .ok () ∧ path ≠ "" ∧ s.locate path = .ok l ∧
      ((∃ c, s.find? l = some (.file c)) ∨
        (s.find? l = none ∧ s.find? l.dropLast = some .directory)) := by
  constructor
  · intro h
    obtain ⟨⟨⟩, husable, h⟩ := bind_eq_ok.1 h
    split at h
    · cases h
    next hne =>
    obtain ⟨m, hm, h⟩ := bind_eq_ok.1 h
    refine ⟨husable, hne, ?_⟩
    split at h
    · cases h
    · next hf => cases h; exact ⟨hm, .inl ⟨_, hf⟩⟩
    · next hf =>
      split at h
      · next hd => cases h; exact ⟨hm, .inr ⟨hf, hd⟩⟩
      · cases h
      · cases h
  · rintro ⟨husable, hne, hl, hfile⟩
    refine bind_eq_ok.2 ⟨(), husable, ?_⟩
    dsimp only
    rw [if_neg hne]
    refine bind_eq_ok.2 ⟨l, hl, ?_⟩
    obtain ⟨c, hc⟩ | ⟨hf, hd⟩ := hfile
    · simp only [hc]
      rfl
    · simp only [hf, hd]
      rfl

/-! ## What stays -/

/-- A file is put where `path` leads. -/
def Puts (s : Store) (path : String) (s' : Store) : Prop :=
  ∃ l c, s.writable path = .ok l ∧ s' = s.put l (.file c)

theorem writable_ne_directory (h : s.writable path = .ok l) :
    l ≠ [] ∧ s.find? l ≠ some .directory := by
  obtain ⟨-, -, -, hfile⟩ := writable_ok.1 h
  have hdir : s.find? l ≠ some .directory := by
    obtain ⟨c, hc⟩ | ⟨hn, -⟩ := hfile
    · simp [hc]
    · simp [hn]
  exact ⟨fun hroot => hdir (by simp [hroot, find?]), hdir⟩

theorem Puts.directory_iff (h : s.Puts path s') (m : Location) :
    s'.find? m = some .directory ↔ s.find? m = some .directory := by
  obtain ⟨l, c, hl, rfl⟩ := h
  obtain ⟨hroot, hdir⟩ := writable_ne_directory hl
  by_cases hm : m = l
  · subst hm
    simp [find?_put_self s hroot, hdir]
  · rw [find?_put s hm]

theorem enter_directory {name : String} (h : s.enter l name = .ok l') :
    s.find? l = some .directory := by
  unfold enter at h
  split at h
  · cases h
  · cases h
  · next hdir => exact hdir

/-- A path leads where its directories say. -/
theorem follow_ok_iff (hdirs : ∀ m, s'.find? m = some .directory ↔ s.find? m = some .directory)
    {steps : List String} : s'.follow start steps = .ok l ↔ s.follow start steps = .ok l := by
  have henter : ∀ (m : Location) (name : String) (l : Location),
      s'.enter m name = .ok l ↔ s.enter m name = .ok l := by
    intro m name l
    by_cases hm : s.find? m = some .directory
    · rw [enter, enter, hm, (hdirs m).2 hm]
    · have hm' := mt (hdirs m).1 hm
      exact iff_of_false (mt enter_directory hm') (mt enter_directory hm)
  induction steps generalizing start with
  | nil => exact Iff.rfl
  | cons name steps ih =>
    simp only [follow, List.foldlM_cons, bind_eq_ok] at ih ⊢
    exact exists_congr fun m => and_congr (henter start name m) ih

/-- **Paths lead where they led before.** -/
theorem Puts.locate_iff (h : s.Puts path s') (path' : String) (m : Location) :
    s'.locate path' = .ok m ↔ s.locate path' = .ok m := by
  have hstart : s'.start path' = s.start path' := by
    obtain ⟨l, c, -, rfl⟩ := h
    rfl
  rw [locate, locate, hstart]
  exact follow_ok_iff h.directory_iff

/-- **Only the place of the path is touched.** -/
theorem Puts.find?_ne (h : s.Puts path s') {m : Location} (hm : s.locate path ≠ .ok m) :
    s'.find? m = s.find? m := by
  obtain ⟨l, c, hl, rfl⟩ := h
  obtain ⟨-, -, hlocate, -⟩ := writable_ok.1 hl
  exact find?_put s fun hml => hm (hml ▸ hlocate)

/-- Files are put, one after another, where paths of some kind lead. -/
def Writes (p : String → Prop) : Store → Store → Prop :=
  Relation.ReflTransGen fun s s' => ∃ path, p path ∧ s.Puts path s'

namespace Writes

variable {p : String → Prop} {s'' : Store}

theorem refl (p : String → Prop) (s : Store) : Writes p s s := Relation.ReflTransGen.refl

theorem trans (h : Writes p s s') (h' : Writes p s' s'') : Writes p s s'' :=
  Relation.ReflTransGen.trans h h'

theorem single (hp : p path) (h : s.Puts path s') : Writes p s s' :=
  Relation.ReflTransGen.single ⟨path, hp, h⟩

theorem directory_iff (h : Writes p s s') (m : Location) :
    s'.find? m = some .directory ↔ s.find? m = some .directory := by
  induction h with
  | refl => exact Iff.rfl
  | tail _ hlast ih =>
    obtain ⟨path, -, hputs⟩ := hlast
    exact (hputs.directory_iff m).trans ih

theorem locate_iff (h : Writes p s s') (path : String) (m : Location) :
    s'.locate path = .ok m ↔ s.locate path = .ok m := by
  induction h with
  | refl => exact Iff.rfl
  | tail _ hlast ih =>
    obtain ⟨path', -, hputs⟩ := hlast
    exact (hputs.locate_iff path m).trans ih

/-- **No other place is touched.** -/
theorem find?_eq (h : Writes p s s') (hl : ∀ path, p path → s.locate path ≠ .ok l) :
    s'.find? l = s.find? l := by
  induction h with
  | refl => rfl
  | tail hwrites hlast ih =>
    obtain ⟨path, hp, hputs⟩ := hlast
    exact (hputs.find?_ne fun hm => hl path hp ((locate_iff hwrites path l).1 hm)).trans ih

end Writes

/-- **A file that is put where it can be takes no place from another.** -/
theorem writable_put (hl : s.writable path = .ok l)
    (h : s.writable path' = .ok l') : (s.put l (.file c)).writable path' = .ok l' := by
  obtain ⟨hroot, hdir⟩ := writable_ne_directory hl
  obtain ⟨husable, hne, hlocate, hfile⟩ := writable_ok.1 h
  have hputs : s.Puts path (s.put l (.file c)) := ⟨l, c, hl, rfl⟩
  refine writable_ok.2 ⟨husable, hne, (hputs.locate_iff path' l').2 hlocate, ?_⟩
  by_cases heq : l' = l
  · subst heq
    exact .inl ⟨c, find?_put_self s hroot⟩
  · rw [find?_put s heq]
    refine hfile.imp_right fun ⟨hn, hd⟩ => ⟨hn, ?_⟩
    have hparent : l'.dropLast ≠ l := fun h => hdir (by rw [← h, hd])
    rwa [find?_put s hparent]

/-! ## Reading back -/

theorem write_ok : s.write path text = .ok s' ↔
    ∃ l, s.writable path = .ok l ∧ s' = s.put l (.file (.text text)) := by
  rw [write, bind_eq_ok]
  constructor
  · rintro ⟨l, hl, he⟩
    cases he
    exact ⟨l, hl, rfl⟩
  · rintro ⟨l, hl, rfl⟩
    exact ⟨l, hl, rfl⟩

theorem append_ok : s.append path more = .ok s' ↔
    ∃ l, s.writable path = .ok l ∧
      s' = s.put l (.file (((s.content? l).getD (.text "")).append more)) := by
  rw [append, bind_eq_ok]
  refine exists_congr fun l => and_congr_right fun _ => ?_
  unfold content?
  cases s.find? l with
  | none => simp [Content.append, pure, Except.pure, eq_comm]
  | some e => cases e <;> simp [Content.append, pure, Except.pure, eq_comm]

theorem write_puts (h : s.write path text = .ok s') : s.Puts path s' := by
  obtain ⟨l, hl, he⟩ := write_ok.1 h
  exact ⟨l, _, hl, he⟩

theorem append_puts (h : s.append path more = .ok s') : s.Puts path s' := by
  obtain ⟨l, hl, he⟩ := append_ok.1 h
  exact ⟨l, _, hl, he⟩

theorem write_total (text : String) (h : (s.writable path).isOk = true) :
    ∃ s', s.write path text = .ok s' := by
  cases hl : s.writable path with
  | error e => rw [hl] at h; cases h
  | ok l => exact ⟨_, write_ok.2 ⟨l, hl, rfl⟩⟩

theorem append_total (more : String) (h : (s.writable path).isOk = true) :
    ∃ s', s.append path more = .ok s' := by
  cases hl : s.writable path with
  | error e => rw [hl] at h; cases h
  | ok l => exact ⟨_, append_ok.2 ⟨l, hl, rfl⟩⟩

theorem Puts.writable (h : s.Puts path s') (h' : (s.writable path').isOk = true) :
    (s'.writable path').isOk = true := by
  obtain ⟨l, c, hl, rfl⟩ := h
  cases hl' : s.writable path' with
  | error e => rw [hl'] at h'; cases h'
  | ok l' => rw [writable_put hl hl']; rfl

/-- What it takes to read a file. -/
theorem readText_ok : s.readText path = .ok text ↔
    usable path = .ok () ∧ path ≠ "" ∧ path.toList.getLast? ≠ some '/' ∧
      ∃ l, s.locate path = .ok l ∧ s.find? l = some (.file (.text text)) := by
  constructor
  · intro h
    obtain ⟨⟨⟩, husable, h⟩ := bind_eq_ok.1 h
    dsimp only at h
    split at h
    · cases h
    next hne =>
    obtain ⟨l, hl, h⟩ := bind_eq_ok.1 h
    split at h
    · cases h
    · cases h
    · next c hc =>
      split at h
      · cases h
      next hslash =>
      split at h
      · cases h
        exact ⟨husable, hne, hslash, l, hl, hc⟩
      · cases h
  · rintro ⟨husable, hne, hslash, l, hl, hc⟩
    refine bind_eq_ok.2 ⟨(), husable, ?_⟩
    dsimp only
    rw [if_neg hne]
    refine bind_eq_ok.2 ⟨l, hl, ?_⟩
    simp only [hc, if_neg hslash]
    rfl

theorem readText_put_self (hslash : path.toList.getLast? ≠ some '/')
    (hl : s.writable path = .ok l) : (s.put l (.file (.text text))).readText path = .ok text := by
  obtain ⟨husable, hne, hlocate, -⟩ := writable_ok.1 (writable_put (c := .text text) hl hl)
  exact readText_ok.2
    ⟨husable, hne, hslash, l, hlocate, find?_put_self s (writable_ne_directory hl).1⟩

theorem write_readText (hslash : path.toList.getLast? ≠ some '/')
    (h : s.write path text = .ok s') : s'.readText path = .ok text := by
  obtain ⟨l, hl, rfl⟩ := write_ok.1 h
  exact readText_put_self hslash hl

theorem append_readText (hr : s.readText path = .ok text) (h : s.append path more = .ok s') :
    s'.readText path = .ok (text ++ more) := by
  obtain ⟨l, hl, rfl⟩ := append_ok.1 h
  obtain ⟨-, -, hslash, m, hm, hfile⟩ := readText_ok.1 hr
  obtain ⟨-, -, hlocate, -⟩ := writable_ok.1 hl
  rw [hlocate] at hm
  cases hm
  rw [content?, hfile]
  exact readText_put_self hslash hl

/-- **Every other file keeps its text.** -/
theorem Puts.readText (h : s.Puts path s') (hr : s.readText path' = .ok text)
    (hne : ∀ l, s.locate path = .ok l → s.locate path' ≠ .ok l) :
    s'.readText path' = .ok text := by
  obtain ⟨husable, hnonempty, hslash, m, hm, htext⟩ := readText_ok.1 hr
  exact readText_ok.2 ⟨husable, hnonempty, hslash, m, (h.locate_iff path' m).2 hm,
    (h.find?_ne fun hp => hne m hp hm).trans htext⟩

end EchoLoad.Store
