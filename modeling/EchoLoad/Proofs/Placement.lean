import EchoLoad.Proofs.ResultFiles
import EchoLoad.Random.SplitMix
import EchoLoad.Run
import Mathlib.Data.List.Basic
/-!
Where the files of a run lie. A run writes to the paths of its result files and nowhere else, and no
two of these are the same. The name of the run is joined to the directory as it stands, so the files
are in the directory just if there is no slash in the name. Main statements: `Output.inside_iff`,
`Run.run_writes` and `results_placed`.
-/

namespace EchoLoad

/-- The files that a run can write. -/
inductive ResultFile where
  | joins
  | messages
  /-- The message latencies of one size. -/
  | latencies (size : Nat)
  | throughput
  | summary
  deriving DecidableEq, Repr

namespace ResultFile

def series : ResultFile → String
  | joins => "join-lat"
  | messages => "msg-lat"
  | latencies size => s!"msg-lat-{size}"
  | throughput => "throughput"
  | summary => "summary"

def extension : ResultFile → String
  | summary => "toml"
  | _ => "csv"

end ResultFile

namespace Output

def file (o : Output) (r : ResultFile) : String := o.path r.series r.extension

def Writes (o : Output) : Store → Store → Prop := Store.Writes fun path => ∃ r, path = o.file r

/-- A place right in the output directory, under a name that starts with the name of the run. -/
def Inside (o : Output) (s : Store) (l : Location) : Prop :=
  ∃ dir file, s.locate o.dir = .ok dir ∧ s.find? dir = some .directory ∧ l = dir ++ [file] ∧
    o.name.toList <+: file.toList

end Output

/-! ## Joined paths -/

namespace Path

theorem pieces_slash (a b : List Char) : pieces (a ++ '/' :: b) = pieces a ++ pieces b := by
  induction a with
  | nil => rfl
  | cons c a ih =>
    by_cases hc : c = '/'
    · rw [List.cons_append, pieces, if_pos hc, ih, pieces, if_pos hc, List.cons_append]
    · rw [List.cons_append, pieces, if_neg hc, ih, pieces, if_neg hc]
      cases hp : pieces a with
      | nil =>
        obtain ⟨front, last, -, h⟩ := pieces_append a
        have hnil := h [] List.not_mem_nil
        simp [hp] at hnil
      | cons p ps => rfl

variable {dir file : String}

theorem isAbsolute_of_not_mem (hslash : '/' ∉ file.toList) : isAbsolute file = false :=
  decide_eq_false fun h => hslash (List.mem_of_head? h)

theorem components_join (hslash : '/' ∉ file.toList) (hne : file ≠ "") :
    components (join dir file) = components dir ++ [file] := by
  have hname : (pieces file.toList).filter (· ≠ []) = [file.toList] := by
    rw [pieces_of_not_mem hslash]
    exact List.filter_cons_of_pos (by simpa using hne)
  have hstep : ∀ front, ((pieces (front ++ '/' :: file.toList)).filter (· ≠ [])).map String.ofList =
      ((pieces front).filter (· ≠ [])).map String.ofList ++ [file] := by
    intro front
    rw [pieces_slash, List.filter_append, hname, List.map_append, List.map_singleton,
      String.ofList_toList]
  by_cases hempty : dir = ""
  · subst hempty
    rw [join, if_pos (by simp), components, hname]
    simp [components, pieces]
  rw [join, if_neg (by simp [isAbsolute_of_not_mem hslash, hempty])]
  split
  · next hlast =>
    obtain ⟨front, hfront⟩ := List.getLast?_eq_some_iff.1 hlast
    have hdir : components dir = ((pieces front).filter (· ≠ [])).map String.ofList := by
      rw [components, hfront, pieces_slash]
      simp [pieces]
    rw [hdir, ← hstep front, components, String.toList_append, hfront, List.append_assoc]
    rfl
  · rw [components, String.toList_append, String.toList_append, List.append_assoc]
    exact hstep dir.toList

theorem isAbsolute_join (hslash : '/' ∉ file.toList) :
    isAbsolute (join dir file) = isAbsolute dir := by
  by_cases hempty : dir = ""
  · subst hempty
    rw [join, if_pos (by simp), isAbsolute_of_not_mem hslash]
    rfl
  have hhead : ∀ rest : List Char, (dir.toList ++ rest).head? = dir.toList.head? := by
    intro rest
    obtain ⟨c, front, hdir⟩ := List.exists_cons_of_ne_nil (mt String.toList_eq_nil_iff.1 hempty)
    rw [hdir]
    rfl
  rw [join, if_neg (by simp [isAbsolute_of_not_mem hslash, hempty])]
  split
  · rw [isAbsolute, isAbsolute, String.toList_append, hhead]
  · rw [isAbsolute, isAbsolute, String.toList_append, String.toList_append, List.append_assoc, hhead]

end Path

theorem Store.locate_join {s : Store} {dir file : String} {l : Location}
    (hslash : '/' ∉ file.toList) (hne : file ≠ "") :
    s.locate (Path.join dir file) = .ok l ↔
      ∃ d, s.locate dir = .ok d ∧ s.enter d file = .ok l := by
  have hstart : s.start (Path.join dir file) = s.start dir := by
    rw [Store.start, Store.start, Path.isAbsolute_join hslash]
  rw [Store.locate, hstart, Path.components_join hslash hne, Store.follow, List.foldlM_append,
    bind_eq_ok]
  simp only [List.foldlM_cons, List.foldlM_nil, bind_pure]
  rfl

/-! ## Directories -/

namespace Store

variable {s s' : Store} {l start : Location} {steps : List String}

theorem makeDir_content? (h : s.makeDir start steps = .ok s') (l : Location) :
    s'.content? l = s.content? l := by
  obtain ⟨made, -, h⟩ := bind_eq_ok.1 h
  split at h
  · cases h
  · next hnone =>
    cases h
    have hroot : made ≠ [] := by
      rintro rfl
      cases hnone
    by_cases hl : l = made
    · rw [hl, content?, content?, find?_put_self s hroot, hnone]
    · exact content?_congr (find?_put s hl)

theorem makeDirs_content? {absolute : Bool} (h : makeDirs absolute start steps s = .ok s')
    (l : Location) : s'.content? l = s.content? l := by
  fun_induction makeDirs absolute start steps s generalizing s' with
  | case1 | case7 =>
    cases h
    rfl
  | case2 _ _ _ hmake =>
    cases h
    exact makeDir_content? hmake l
  | case4 _ _ _ hparent _ hmake _ ih =>
    cases h
    exact (makeDir_content? hmake l).trans (ih hparent)
  | case5 _ _ _ hparent _ _ _ _ ih =>
    cases h
    exact ih hparent
  | case3 | case6 | case8 => cases h

theorem createDirs_content? {path : String} (h : s.createDirs path = .ok s') (l : Location) :
    s'.content? l = s.content? l := by
  obtain ⟨-, -, h⟩ := bind_eq_ok.1 h
  exact makeDirs_content? h l

end Store

/-! ## The result files -/

namespace ResultFile

theorem plain_series (r : ResultFile) : Output.Plain r.series := by
  cases r with
  | latencies size => exact Output.plain_latencies size
  | _ => decide

theorem plain_extension (r : ResultFile) : Output.Plain r.extension := by
  cases r with
  | summary => decide
  | _ => exact (by decide : Output.Plain "csv")

theorem series_injective : Function.Injective series := by
  have hlatencies : ∀ r n, series r = s!"msg-lat-{n}" → r = latencies n := by
    intro r n h
    cases r with
    | latencies size => rw [Output.latencies_inj.1 h]
    | messages =>
      have hlength : "msg-lat".length = "msg-lat-".length + (toString n).length := by
        rw [← String.length_append]
        exact congrArg String.length h
      have hshorter : "msg-lat".length < "msg-lat-".length := by decide
      omega
    | _ => exact absurd h.symm (Output.latencies_ne (by decide) n)
  intro r r' h
  cases r with
  | latencies size => exact (hlatencies r' size h.symm).symm
  | _ =>
    cases r' with
    | latencies size => exact hlatencies _ size h
    | _ => first | rfl | exact absurd h (by decide)

/-- The tail of a path tells which file it is. -/
theorem tail_injective {r r' : ResultFile}
    (h : Output.tail r.series r.extension = Output.tail r'.series r'.extension) : r = r' := by
  cases r with
  | summary =>
    cases r' with
    | summary => rfl
    | _ => exact absurd h.symm (Output.tail_csv_ne_toml _ _)
  | _ =>
    cases r' with
    | summary => exact absurd h (Output.tail_csv_ne_toml _ _)
    | _ => exact series_injective (Output.tail_csv_inj.1 h)

end ResultFile

namespace Output

variable {o : Output} {s s' : Store} {l : Location} {r r' : ResultFile}

/-- **Each result file has a path and a place of its own.** -/
theorem file_separate (o : Output) (s : Store) (h : r ≠ r') : o.file r ≠ o.file r' ∧
    ∀ l, s.locate (o.file r) = .ok l → s.locate (o.file r') ≠ .ok l := by
  refine ⟨fun he => ?_, fun l hl hl' => h (ResultFile.tail_injective ?_)⟩
  · obtain ⟨pre, hpre⟩ := o.exists_path_eq
    rw [file, file, hpre, hpre] at he
    exact h (ResultFile.tail_injective ((String.append_right_inj _).1 he))
  · exact locate_inj r.plain_series r.plain_extension r'.plain_series r'.plain_extension hl hl'

/-- **The result files are in the output directory just if the name of the run has no slash in
it.** -/
theorem inside_iff (h : s.locate (o.file r) = .ok l) :
    o.Inside s l ↔ '/' ∉ o.name.toList := by
  constructor
  · rintro ⟨dir, file, -, -, rfl, hname⟩
    obtain ⟨place, stem, hstem, hplace⟩ := o.exists_place s
    obtain ⟨dir', -, he⟩ := hplace r.plain_series r.plain_extension h
    obtain rfl := List.singleton_inj.1 (List.append_inj_right' he rfl)
    have hfree := not_mem_append_tail hstem r.plain_series r.plain_extension
    exact fun hmem => hfree (hname.subset hmem)
  · -- the name and its tail are one step from the directory, and neither a dot nor two
    intro hname
    have hfree := not_mem_append_tail hname r.plain_series r.plain_extension
    rw [file, path_eq_join, Store.locate_join hfree (append_tail_ne _ _ _ (by decide))] at h
    obtain ⟨dir, hdir, henter⟩ := h
    have hl := Store.enter_ok henter (append_tail_ne _ _ _ (by decide))
      (append_tail_ne _ _ _ (by decide))
    refine ⟨dir, _, hdir, Store.enter_directory henter, hl, ?_⟩
    rw [String.toList_append]
    exact List.prefix_append ..

end Output

/-! ## What has been written -/

namespace Session

variable {set : Setting} {fuel clients batch : Nat} {o : Output} {s s' : Session}

theorem writeSeries_writes {samples : List Duration} (r : ResultFile) (hr : r.extension = "csv")
    (h : s.writeSeries o r.series samples = .ok s') : o.Writes s.store s'.store := by
  obtain ⟨store, hstore, rfl⟩ := map_eq_ok.1 h
  refine .single ⟨r, rfl⟩ ?_
  rw [Output.file, hr]
  exact Store.write_puts hstore

theorem establish_writes {result : Except RunError (List Client × Nat)}
    (h : s.establish set fuel clients batch o = .ok (s', result)) : o.Writes s.store s'.store := by
  obtain ⟨⟨w, pool⟩, -, h⟩ := bind_eq_ok.1 h
  dsimp only at h
  split at h
  · obtain ⟨⟨w1, n⟩, -, h⟩ := bind_eq_ok.1 h
    dsimp only at h
    split at h
    · cases h
      exact .refl ..
    · next hjoins =>
      have hwrites := writeSeries_writes .joins rfl hjoins
      cases h
      exact hwrites
  · split at h
    · cases h
      exact .refl ..
    · next hjoins =>
      have hwrites := writeSeries_writes .joins rfl hjoins
      cases h
      exact hwrites

end Session

variable {set : Setting} {fuel : Nat} {o : Output} {session session' : Session}

namespace Sweep

variable {s : SweepSettings} {p : Sweep}

theorem record_writes {summary : PhaseSummary} {result : Except RunError Unit}
    (h : record o summary session = (session', result)) :
    o.Writes session.store session'.store := by
  unfold record at h
  dsimp only at h
  split at h
  · cases h
    exact .refl ..
  · next session1 hmessages =>
    have hwrites := Session.writeSeries_writes (.latencies summary.size) rfl hmessages
    split at h
    · cases h
      exact hwrites
    · next store hrecord =>
      cases h
      exact hwrites.trans (.single ⟨.throughput, rfl⟩ (Store.append_puts hrecord))

theorem turn_writes {size : Nat} {result : Except RunError (Sweep × Bool)}
    (h : turn set fuel s o size p session = .ok (session', result)) :
    o.Writes session.store session'.store := by
  obtain ⟨w, -, h⟩ := bind_eq_ok.1 h
  dsimp only at h
  split at h
  · cases h
    exact .refl ..
  · obtain ⟨⟨w1, clients, summary, failure⟩, -, h⟩ := bind_eq_ok.1 h
    dsimp only at h
    split at h
    · next hrecord =>
      have hwrites := record_writes hrecord
      cases h
      exact hwrites
    · next hrecord =>
      have hwrites := record_writes hrecord
      cases h
      exact hwrites

theorem advance_writes {sizes : List Nat} {result : Except RunError Sweep}
    (h : advance set fuel s o sizes p session = .ok (session', result)) :
    o.Writes session.store session'.store := by
  induction sizes generalizing p session with
  | nil =>
    cases h
    exact .refl ..
  | cons size sizes ih =>
    unfold advance at h
    split at h
    · cases h
    · next hturn =>
      cases h
      exact turn_writes hturn
    · next hturn =>
      cases h
      exact turn_writes hturn
    · next hturn => exact (turn_writes hturn).trans (ih h)

theorem run_writes {result : Except RunError SweepReport}
    (h : run set fuel s o session = .ok (session', result)) :
    o.Writes session.store session'.store := by
  obtain ⟨⟨session1, established⟩, hestablish, h⟩ := bind_eq_ok.1 h
  have hpool := Session.establish_writes hestablish
  cases established with
  | error e =>
    cases h
    exact hpool
  | ok pool =>
    obtain ⟨clients, joins⟩ := pool
    dsimp only at h
    split at h
    · cases h
      exact hpool
    · next store hstart =>
      have hstarted := hpool.trans (.single ⟨.throughput, rfl⟩ (Store.write_puts hstart))
      obtain ⟨⟨session2, advanced⟩, hadvance, h⟩ := bind_eq_ok.1 h
      have hphases := hstarted.trans (advance_writes hadvance)
      cases advanced with
      | error e =>
        cases h
        exact hphases
      | ok p =>
        obtain ⟨⟨w, n⟩, -, h⟩ := bind_eq_ok.1 h
        cases h
        exact hphases

end Sweep

theorem Ramp.run_writes {s : RampSettings} {result : Except RunError RampReport}
    (h : run set fuel s o session = .ok (session', result)) :
    o.Writes session.store session'.store := by
  obtain ⟨⟨w1, r1, ending1⟩, -, h⟩ := bind_eq_ok.1 h
  obtain ⟨⟨w2, clients, ending⟩, -, h⟩ := bind_eq_ok.1 h
  obtain ⟨⟨w3, closed⟩, -, h⟩ := bind_eq_ok.1 h
  dsimp only at h
  split at h
  · cases h
    exact .refl ..
  · next session1 hjoins =>
    have hwrites := Session.writeSeries_writes .joins rfl hjoins
    split at h
    · cases h
      exact hwrites
    · next session2 hmessages =>
      cases h
      exact hwrites.trans (Session.writeSeries_writes .messages rfl hmessages)

theorem Mixed.run_writes {s : MixedSettings} {result : Except RunError MixedReport}
    (h : run set fuel s o session = .ok (session', result)) :
    o.Writes session.store session'.store := by
  obtain ⟨⟨session1, established⟩, hestablish, h⟩ := bind_eq_ok.1 h
  have hpool := Session.establish_writes hestablish
  cases established with
  | error e =>
    cases h
    exact hpool
  | ok pool =>
    obtain ⟨clients, joins⟩ := pool
    obtain ⟨w1, -, h⟩ := bind_eq_ok.1 h
    obtain ⟨⟨w2, clients2, failure⟩, -, h⟩ := bind_eq_ok.1 h
    dsimp only at h
    split at h
    · cases h
      exact hpool
    · next session2 hmessages =>
      have hwrites := Session.writeSeries_writes .messages rfl hmessages
      obtain ⟨⟨w3, n⟩, -, h⟩ := bind_eq_ok.1 h
      cases h
      exact hpool.trans hwrites

/-! ## A whole run -/

namespace Run

variable {env : Surroundings} {c : Config}

theorem workload_writes {s s' : RunSummary} {result : Except RunError Unit}
    (h : workload env fuel c o s session = .ok (session', s', result)) :
    o.Writes session.store session'.store := by
  unfold workload at h
  split at h
  · obtain ⟨⟨session1, r⟩, hrun, h⟩ := bind_eq_ok.1 h
    obtain ⟨rfl, -⟩ := Prod.mk.inj (Except.ok.inj h)
    exact Ramp.run_writes hrun
  · obtain ⟨⟨session1, r⟩, hrun, h⟩ := bind_eq_ok.1 h
    obtain ⟨rfl, -⟩ := Prod.mk.inj (Except.ok.inj h)
    exact Sweep.run_writes hrun
  · obtain ⟨⟨session1, r⟩, hrun, h⟩ := bind_eq_ok.1 h
    obtain ⟨rfl, -⟩ := Prod.mk.inj (Except.ok.inj h)
    exact Mixed.run_writes hrun

theorem perform_writes {server : Address} {ended : RunEnd}
    (h : perform env fuel c server o session = .ok ended) :
    o.Writes session.store ended.session.store := by
  obtain ⟨⟨session1, s, result⟩, hworkload, h⟩ := bind_eq_ok.1 h
  have hwrites := workload_writes hworkload
  dsimp only at h
  split at h
  · cases h
    exact hwrites
  · next store hsummary =>
    cases h
    obtain ⟨text, -, hwrite⟩ := bind_eq_ok.1 hsummary
    exact hwrites.trans (.single ⟨.summary, rfl⟩ (Store.write_puts hwrite))

/-- **All that a run does to the store**: nothing, or it makes the output directory and writes result
files. -/
theorem run_writes {ended : RunEnd} (h : run env fuel c session = .ok ended) :
    ended.session.store = session.store ∨
      ∃ made, session.store.createDirs c.outDir = .ok made ∧
        Output.Writes ⟨c.outDir, c.name⟩ made ended.session.store := by
  unfold run at h
  split at h
  · cases h
    exact .inl rfl
  · split at h
    · cases h
      exact .inl rfl
    · next o store hcreate =>
      obtain ⟨made, hmade, he⟩ := map_eq_ok.1 hcreate
      cases he
      exact .inr ⟨_, hmade, perform_writes h⟩

end Run

/-- **Where the files of a run lie**, whatever its directory and its name. A run touches no other
file than its result files. Two of them have neither a path nor a place in common. They are right in
the output directory, under names that start with the name of the run, just if this has no slash in
it; and the configuration takes every name. -/
theorem results_placed (env : Surroundings) (fuel : Nat) (c : Config) {session : Session}
    {ended : RunEnd} (h : Run.run env fuel c session = .ok ended) :
    let o : Output := ⟨c.outDir, c.name⟩
    let s := ended.session.store
    (s = session.store ∨ ∃ made, session.store.createDirs c.outDir = .ok made ∧ o.Writes made s) ∧
    (∀ l, s.content? l ≠ session.store.content? l → ∃ r, s.locate (o.file r) = .ok l) ∧
    (∀ r r', r ≠ r' → o.file r ≠ o.file r' ∧
      ∀ l, s.locate (o.file r) = .ok l → s.locate (o.file r') ≠ .ok l) ∧
    (∀ r l, s.locate (o.file r) = .ok l → (o.Inside s l ↔ '/' ∉ c.name.toList)) ∧
    ∀ name, ({ c with name } : Config).problem? = c.problem? := by
  intro o s
  have hwrites := Run.run_writes h
  refine ⟨hwrites, fun l hl => ?_, fun r r' => o.file_separate s, fun r l => Output.inside_iff,
    fun name => rfl⟩
  obtain hsame | ⟨made, hmade, hwrites⟩ := hwrites
  · exact absurd (congrArg (Store.content? · l) hsame) hl
  · by_contra hnone
    have hnowhere : ∀ path, (∃ r, path = o.file r) → made.locate path ≠ .ok l := by
      rintro path ⟨r, rfl⟩ hr
      exact hnone ⟨r, (hwrites.locate_iff _ l).2 hr⟩
    have hkept := Store.content?_congr (hwrites.find?_eq hnowhere)
    exact hl (hkept.trans (Store.createDirs_content? hmade l))

/-- With two dots and a slash in the name, the join latencies lie beside the output directory. -/
theorem results_placed_beside :
    ∃ ended, Run.run
        { resolver := { unknown := .fileNotFound }, source := SplitMix.source #[] 0 } 40
        (.overlay {} {
          run := { name := "../r", outDir := "out", batchSize := 1 }, client := { handshake := false }
          throughput := { clients := 1, sizes := [0], rounds := some 1 } })
        { world := {} } = .ok ended ∧
      ended.session.store.locate (Output.file ⟨"out", "../r"⟩ .joins) = .ok ["r-join-lat.csv"] ∧
      (ended.session.store.content? ["r-join-lat.csv"]).isSome ∧
      ¬ Output.Inside ⟨"out", "../r"⟩ ended.session.store ["r-join-lat.csv"] := by
  have hrun : ((Run.run
      { resolver := { unknown := .fileNotFound }, source := SplitMix.source #[] 0 } 40
      (.overlay {} {
        run := { name := "../r", outDir := "out", batchSize := 1 }, client := { handshake := false }
        throughput := { clients := 1, sizes := [0], rounds := some 1 } })
      { world := {} }).toOption.any fun ended => decide
        (ended.session.store.locate (Output.file ⟨"out", "../r"⟩ .joins) = .ok ["r-join-lat.csv"] ∧
          (ended.session.store.content? ["r-join-lat.csv"]).isSome)) = true := by
    decide +kernel
  obtain ⟨ended, h, hresult⟩ := toOption_any.1 hrun
  obtain ⟨hlocate, hcontent⟩ := of_decide_eq_true hresult
  obtain ⟨-, -, -, hinside, -⟩ := results_placed _ _ _ h
  refine ⟨ended, h, hlocate, hcontent, fun hin => ?_⟩
  exact (hinside .joins _ hlocate).1 hin (by decide)

end EchoLoad
