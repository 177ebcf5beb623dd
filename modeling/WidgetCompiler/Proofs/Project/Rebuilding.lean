import WidgetCompiler.Proofs.Linking.SharedOrigins
import WidgetCompiler.Proofs.Project.Resolving
import WidgetCompiler.Proofs.Project.Written

namespace WidgetCompiler

open List
open WidgetCompiler.Path (ofNames AreNames)

variable {report' : BuildReport} {file : SourceFile} {m : BuiltModule}

namespace FileTree

variable {t t' : FileTree} {key k done rest : List String} {c : Content}

theorem ensure_base (h : t.ensure done rest = .ok t') : t'.base = t.base := by
  induction rest generalizing t done with
  | nil =>
    cases h
    rfl
  | cons x rest ih =>
    rw [ensure] at h
    split at h
    · exact ih h
    · cases h
    · cases h
    · have hbase := ih h
      exact hbase

theorem putFiles_base (t : FileTree) (key : List String) (files : List (String × Content)) :
    (t.putFiles key files).base = t.base := by
  induction files generalizing t with
  | nil => rfl
  | cons f files ih => exact ih (t.put (key ++ [f.1]) (.file f.2))

theorem file_of_ensure (h : t.ensure done rest = .ok t') (hk : t'.get? k = some (.file c)) :
    t.get? k = some (.file c) := by
  induction rest generalizing t done with
  | nil =>
    cases h
    exact hk
  | cons x rest ih =>
    rw [ensure] at h
    split at h
    · exact ih h
    · cases h
    · cases h
    · have hput := ih h
      rw [get?_put (by simp)] at hput
      split at hput
      · cases hput
      · rw [get?_drop (by simp)] at hput
        split at hput
        · cases hput
        · exact hput

theorem IsSound.putFiles {files : List (String × Content)} (h : t.IsSound) (ho : t.IsOpen key)
    (hn : ∀ f ∈ files, AreNames (key ++ [f.1])) : (t.putFiles key files).IsSound := by
  induction files generalizing t with
  | nil => exact h
  | cons f files ih =>
    refine ih (h.put (by simp) (hn f mem_cons_self) (ho.leads f.1) (.inr (ho.files f.1)))
      (ho.put f.1 f.2) ?_
    intro g hg
    exact hn g (mem_cons_of_mem _ hg)

theorem IsSound.contents_iff (h : t.IsSound) (hn : AreNames k) :
    t.contents (ofNames k) = .ok c ↔ t.get? k = some (.file c) ∧ c ≠ .sealed := by
  rw [contents_ofNames hn]
  exact and_iff_right_of_imp fun hc => h.leads_of_get? hc.1

theorem file_of_putFiles {files : List (String × Content)}
    (h : (t.putFiles key files).get? k = some (.file c)) :
    t.get? k = some (.file c) ∨ ∃ f ∈ files, f.2 = c := by
  induction files generalizing t with
  | nil => exact .inl h
  | cons f files ih =>
    rcases ih h with hput | ⟨g, hg, hc⟩
    · rw [get?_put (by simp)] at hput
      split at hput
      · cases hput
        exact .inr ⟨f, mem_cons_self, rfl⟩
      · exact .inl hput
    · exact .inr ⟨g, mem_cons_of_mem _ hg, hc⟩

def Same (t t' : FileTree) : Prop :=
  t.base = t'.base ∧ ∀ k, t.get? k = t'.get? k

end FileTree

section Left

variable {files files' : FileTree} {settings : Settings} {report : BuildReport} {k : List String}
  {c : Content}

section

variable (run : BuildRun files settings report files')

include run

theorem BuildRun.steps :
    ∃ w, (w = files ∨ w = files.drop run.output) ∧ w.ensure [] run.output = .ok run.emptied ∧
      (∃ xs, xs <+: run.output ∧ xs ≠ [] ∧ w.get? xs = none) ∧
      ∀ c, files.Leads run.output → files.get? run.output ≠ some (.file c) := by
  have hreset := run.reset
  rw [run.names.output_eq] at hreset
  rcases resetDirectory_steps run.names.output_names run.isFor.nonempty files with
    ⟨w, t', hw, hens, hmissing, hfile, hrun⟩ | ⟨e, u, he, -⟩
  · rw [hreset] at hrun
    obtain rfl := (Prod.mk.inj hrun).2
    exact ⟨w, hw, hens, hmissing, hfile⟩
  · rw [hreset] at he
    cases he

theorem BuildRun.base_eq : files'.base = files.base := by
  obtain ⟨w, hw, hens, -, -⟩ := run.steps
  rw [congrArg FileTree.base run.files_eq, FileTree.putFiles_base, FileTree.ensure_base hens]
  rcases hw with rfl | rfl
  · rfl
  · rfl

theorem BuildRun.written_names :
    ∀ f ∈ run.plan.written files settings.sources, AreNames (run.output ++ [f.1]) := by
  intro f hf
  rcases mem_append.1 hf with hf | hf
  · obtain ⟨m, hm, rfl⟩ := mem_map.1 hf
    exact (run.isFor.modules m hm).1
  · obtain ⟨c, -, rfl⟩ := mem_map.1 hf
    exact run.names.output_names.concat isStep_supportFile

theorem BuildRun.isSound_emptied (h : files.IsSound) {w : FileTree}
    (hw : w = files ∨ w = files.drop run.output) : w.IsSound := by
  rcases hw with rfl | rfl
  · exact h
  · exact h.drop run.isFor.nonempty

theorem BuildRun.isSound (h : files.IsSound) : files'.IsSound := by
  obtain ⟨w, hw, hens, -, -⟩ := run.steps
  have hsound := run.isSound_emptied h hw
  have hroot : w.Leads [] := by
    intro j hj hne
    exact absurd (prefix_nil.1 hj) hne
  have hemptied :=
    hsound.ensure (nil_append run.output ▸ run.names.output_names) hroot rfl hens
  rw [run.files_eq]
  exact hemptied.putFiles run.fresh.isOpen run.written_names

theorem BuildRun.output_short (h : files.IsSound) :
    ∀ x ∈ run.output.getLast?, FileTree.isLong x = false := by
  obtain ⟨w, hw, hens, ⟨xs, hxs, -, hnone⟩, -⟩ := run.steps
  have hsound := run.isSound_emptied h hw
  have hmissing : w.get? run.output = none := by
    by_contra hsome
    obtain ⟨e, he⟩ := Option.ne_none_iff_exists'.1 hsome
    by_cases hx : xs = run.output
    · exact hsome (hx ▸ hnone)
    · rw [hsound.leads_of_get? he xs hxs hx] at hnone
      cases hnone
  intro x hx
  obtain ⟨above, habove⟩ := getLast?_eq_some_iff.1 hx
  have hp : above ++ [x] <+: run.output := habove ▸ prefix_refl _
  refine FileTree.ensure_short hens hp ?_
  rw [nil_append, ← habove, hmissing]

theorem BuildRun.get?_outside (hk : run.output <+: k → k = run.output) :
    files'.get? k = run.emptied.get? k := by
  rw [congrArg FileTree.get? run.files_eq]
  apply FileTree.get?_putFiles_of_ne
  intro f _ heq
  have hlen := congrArg List.length (hk (heq ▸ prefix_append _ _))
  rw [heq] at hlen
  simp at hlen

theorem BuildRun.get?_output_eq : files'.get? run.output = some .directory := by
  rw [run.get?_outside fun _ => rfl]
  exact run.fresh.directories _ (prefix_refl _)

theorem BuildRun.file_iff (h : files.IsSound) (hk : run.output <+: k → k = run.output) :
    files'.get? k = some (.file c) ↔ files.get? k = some (.file c) := by
  obtain ⟨w, hw, hens, -, hfile⟩ := run.steps
  by_cases hout : run.output <+: k
  · obtain rfl := hk hout
    rw [run.get?_output_eq]
    refine iff_of_false (by simp) ?_
    intro hc
    exact hfile c (h.leads_of_get? hc) hc
  · constructor
    · intro hc
      rw [run.get?_outside hk] at hc
      have hbefore := FileTree.file_of_ensure hens hc
      rcases hw with rfl | rfl
      · exact hbefore
      · rw [FileTree.get?_drop run.isFor.nonempty, if_neg hout] at hbefore
        exact hbefore
    · intro hc
      rw [run.get?_outside hk, run.keeps k (h.leads_of_get? hc) (by simp [hc]) hout, hc]

theorem BuildRun.contents_iff (h : files.IsSound) (hn : AreNames k)
    (hk : run.output <+: k → k = run.output) :
    files'.contents (ofNames k) = .ok c ↔ files.contents (ofNames k) = .ok c := by
  rw [(run.isSound h).contents_iff hn, h.contents_iff hn, run.file_iff h hk]

theorem BuildRun.isFile_eq (h : files.IsSound) (hn : AreNames k)
    (hk : run.output <+: k → k = run.output) :
    files'.isFile (ofNames k) = files.isFile (ofNames k) := by
  have hfile (t : FileTree) (ht : t.IsSound) :
      t.isFile (ofNames k) ↔ ∃ c, t.get? k = some (.file c) := by
    rw [FileTree.isFile_ofNames hn]
    exact and_iff_right_of_imp fun ⟨c, hc⟩ => ht.leads_of_get? hc
  rw [Bool.eq_iff_iff, hfile _ (run.isSound h), hfile _ h]
  exact exists_congr fun c => run.file_iff h hk

end

end Left

def Settings.Finds (s : Settings) (files : FileTree) (file : SourceFile) (c : Content) : Prop :=
  (∃ found, discoverSources files s.sources (s.skipped files) = .ok found ∧ file ∈ found) ∧
    files.contents file.path = .ok c

def Settings.FindsSame (s : Settings) (files files' : FileTree) : Prop :=
  ∀ file c, file.path.isUnder s.output →
    (s.Finds files' file c ↔ s.Finds files file c)

section Twice

variable {files files' files'' : FileTree} {settings : Settings} {report : BuildReport}
  {k : List String}

theorem ofNames_inj {names names' : List String} (h : AreNames names) (h' : AreNames names')
    (heq : ofNames names = ofNames names') : names = names' := by
  have hcomponents := congrArg Path.components heq
  rw [Path.components_ofNames h, Path.components_ofNames h', List.cons.injEq] at hcomponents
  exact map_injective_iff.2 (fun _ _ hx => Component.name.inj hx) hcomponents.2

variable (run : BuildRun files settings report files')

include run

theorem BuildRun.output_same (run' : BuildRun files' settings report' files'') : run'.output = run.output := by
  apply ofNames_inj run'.names.output_names run.names.output_names
  rw [← run'.names.output_eq, run.names.output_eq]

theorem BuildRun.same_outside (run' : BuildRun files' settings report' files'') (hk : ¬ run.output <+: k) :
    files''.get? k = files'.get? k := by
  have hout := run.output_same run'
  obtain ⟨w, hw, hens, -⟩ := run'.steps
  rw [hout] at hw hens
  have hdirectory (xs : List String) (hxs : xs <+: run.output) (hk' : xs <+: k) :
      w.get? xs = some .directory := by
    have hne : ¬ run.output <+: xs := fun hp => hk (hp.trans hk')
    have hopen : files'.get? xs = some .directory := by
      rw [run.get?_outside fun hp => absurd hp hne]
      exact run.fresh.directories xs hxs
    rcases hw with rfl | rfl
    · exact hopen
    · rw [FileTree.get?_drop run.isFor.nonempty, if_neg hne, hopen]
  rw [run'.get?_outside fun hp => absurd (hout ▸ hp) hk, FileTree.ensure_get? hens]
  · rcases hw with rfl | rfl
    · rfl
    · rw [FileTree.get?_drop run.isFor.nonempty, if_neg hk]
  · intro xs hxs _ hp
    rw [nil_append] at hp ⊢
    simp [hdirectory xs hxs hp]

variable (run' : BuildRun files' settings report files'')
  (hsupport : run'.plan.support.content? files' = run.plan.support.content? files)
  (hcode : ∀ m ∈ report.modules, report.keptIn? m.output = some m →
    settings.codeOf files' m.file = settings.codeOf files m.file)

include hsupport hcode

theorem BuildRun.same_inside (x : String) :
    files''.get? (run.output ++ [x]) = files'.get? (run.output ++ [x]) := by
  have hout := run.output_same run'
  by_cases hx : x ∈ (run.plan.written files settings.sources).map Prod.fst
  · by_cases hs : x = supportFile ∧ ∃ c, run.plan.support.content? files = some c
    · obtain ⟨rfl, c, hc⟩ := hs
      rw [run.get?_support hc, ← hout, run'.get?_support (hsupport.trans hc)]
    · rw [run.written_fst, mem_append] at hx
      have hmodule : x ∈ (report.names settings.sources).map (· ++ ".js") := by
        rcases hx with hx | hx
        · exact hx
        · obtain ⟨p, hp, rfl⟩ := mem_map.1 hx
          rw [run.support_eq] at hp
          cases hc : run.plan.support.content? files with
          | none => simp [hc] at hp
          | some c => exact absurd ⟨rfl, c, hc⟩ hs
      obtain ⟨name, hname, rfl⟩ := mem_map.1 hmodule
      obtain ⟨b, hb, rfl⟩ := mem_map.1 hname
      obtain ⟨hnames, hpath⟩ := run.moduleFile_eq b.file.path
      have hne : report.support ≠ some b.output := by
        rw [run.output_of_mem hb, hpath, run.support_eq]
        intro heq
        obtain ⟨c, hc, hsame⟩ := Option.map_eq_some_iff.1 heq
        have hlast := ofNames_inj (run.names.output_names.concat isStep_supportFile) hnames hsame
        exact hs ⟨by simpa using hlast.symm, c, hc⟩
      obtain ⟨b', hb', hsame, hkept⟩ := exists_keptIn? hb hne
      have hcodes := hcode b' hb' (hsame ▸ hkept)
      rw [run.output_of_mem hb] at hkept
      obtain ⟨code, hcode₁, hcontents⟩ := run.contents_of_keptIn? hkept
      obtain ⟨code', hcode₂, hcontents'⟩ := run'.contents_of_keptIn? hkept
      obtain rfl : code' = code := by
        rw [hcode₁, hcode₂] at hcodes
        exact Except.ok.inj hcodes
      rw [hpath, FileTree.contents_ofNames hnames] at hcontents hcontents'
      rw [hcontents.2.1, hcontents'.2.1]
  · have hx' : x ∉ (run'.plan.written files' settings.sources).map Prod.fst := by
      rw [run'.written_fst, ← run.written_fst]
      exact hx
    rw [run.get?_unwritten hx, ← hout, run'.get?_unwritten hx']

theorem BuildRun.same : files''.Same files' := by
  refine ⟨run'.base_eq, ?_⟩
  intro k
  by_cases hk : run.output <+: k
  · obtain ⟨rest, rfl⟩ := hk
    rcases rest with _ | ⟨x, _ | ⟨y, ys⟩⟩
    · rw [append_nil, run.get?_output_eq, ← run.output_same run', run'.get?_output_eq]
    · exact run.same_inside run' hsupport hcode x
    · rw [run.get?_deeper, ← run.output_same run', run'.get?_deeper]
  · exact run.same_outside run' hk

end Twice

section Again

variable {files files' files'' : FileTree} {settings : Settings} {report : BuildReport}

theorem mapM_ok_of_forall {ε α β : Type} {f : α → Except ε β} {l : List α}
    (h : ∀ a ∈ l, ∃ b, f a = .ok b) : ∃ bs, l.mapM f = .ok bs := by
  induction l with
  | nil => exact ⟨[], rfl⟩
  | cons a l ih =>
    obtain ⟨b, hb⟩ := h a mem_cons_self
    obtain ⟨bs, hbs⟩ := ih fun c hc => h c (mem_cons_of_mem _ hc)
    rw [mapM_cons]
    exact ⟨b :: bs, bind_ok.2 ⟨b, hb, bind_ok.2 ⟨bs, hbs, rfl⟩⟩⟩

theorem ofSources_ok {found : List SourceFile}
    (hf : discoverSources files settings.sources (settings.skipped files) = .ok found)
    (hc : ∀ file ∈ found, ∃ code, settings.codeOf files file = .ok code) :
    ∃ plan, Plan.ofSources files settings = .ok plan := by
  have hload : ∀ file ∈ found, ∃ s, Source.load files file = .ok s := by
    intro file hfile
    obtain ⟨code, hcode⟩ := hc file hfile
    obtain ⟨s, hs, -⟩ := bind_ok.1 hcode
    exact ⟨s, hs⟩
  obtain ⟨loaded, hloaded⟩ := mapM_ok_of_forall hload
  have hcells (table : CellTable) :
      settings.cells files = .ok table ↔ linkSources files loaded = .ok table := by
    unfold Settings.cells
    rw [hf]
    change (found.mapM (Source.load files) >>= linkSources files) = _ ↔ _
    rw [hloaded]
    rfl
  obtain ⟨table, htable⟩ : ∃ table, linkSources files loaded = .ok table := by
    cases found with
    | nil =>
      cases hloaded
      exact ⟨_, rfl⟩
    | cons file found =>
      obtain ⟨code, hcode⟩ := hc file mem_cons_self
      obtain ⟨s, -, hcode⟩ := bind_ok.1 hcode
      obtain ⟨table, htable, -⟩ := bind_ok.1 hcode
      exact ⟨table, (hcells table).1 htable⟩
  have hcompile : ∀ s ∈ loaded,
      ∃ code, Source.compile ⟨settings.sources, table, files⟩ s = .ok code := by
    intro s hs
    obtain ⟨file, hfile, hfs⟩ := mapM_ok hloaded s hs
    obtain ⟨code, hcode⟩ := hc file hfile
    obtain ⟨s', hs', hcode⟩ := bind_ok.1 hcode
    obtain ⟨table', htable', hcode⟩ := bind_ok.1 hcode
    obtain rfl : s = s' := Except.ok.inj (hfs.symm.trans hs')
    obtain rfl : table = table' := Except.ok.inj (htable.symm.trans ((hcells table').1 htable'))
    exact ⟨code, hcode⟩
  obtain ⟨codes, hcodes⟩ := mapM_ok_of_forall hcompile
  exact ⟨_, bind_ok.2 ⟨found, hf, bind_ok.2 ⟨loaded, hloaded, bind_ok.2 ⟨table, htable,
    bind_ok.2 ⟨codes, hcodes, rfl⟩⟩⟩⟩⟩

theorem buildProject_ok (hb : files.base.isAbsolute) (hin : settings.StaysInside files.base)
    (hu : (settings.absolute files.base).sources.isUnder (settings.absolute files.base).output =
      false)
    {plan : Plan} (hp : Plan.ofSources files (settings.absolute files.base) = .ok plan)
    (hsupport : ∀ source, plan.support = .copied source → ∃ c, files.contents source = .ok c)
    {u : FileTree}
    (hr : (Work.resetDirectory (settings.absolute files.base).output).run files = (.ok (), u)) :
    ∃ report files', (buildProject settings).run files = (.ok report, files') := by
  obtain ⟨sources, output, hn⟩ := hin.names hb
  have hof := isOf_ofSources hp
  have hfor := isFor_of_isOf hof hn hu
  have hplan : Plan.ofSettings files settings = .ok plan := by
    simp only [Plan.ofSettings, hu, Bool.false_eq_true, if_false]
    exact hp
  have hrun : (buildProject settings).run files = plan.carryOut.run files :=
    Work.run_bind_ok (by rw [Work.run_look, hplan]) _
  rw [hrun]
  rw [hn.output_eq] at hr
  rcases resetDirectory_cases hfor.names hfor.nonempty files with
    ⟨u', hreset, hfresh, hkeeps, hfile⟩ | ⟨e', u', he', -⟩
  · rw [← hfor.output] at hreset
    exact ⟨_, _, carryOut_of_reset hfor hreset hfresh hkeeps hfile hsupport⟩
  · rw [hr] at he'
    cases he'

theorem sources_not_under (h : (buildProject settings).run files = (.ok report, files')) :
    (settings.absolute files.base).sources.isUnder (settings.absolute files.base).output =
      false := by
  rw [Bool.eq_false_iff]
  intro hu
  have hplan : Plan.ofSettings files settings = .error
      (Problem.noPlace (.overwritesSources (settings.absolute files.base).output.text)) := by
    simp only [Plan.ofSettings, hu, if_true]
  have herror : (buildProject settings).run files = (.error _, files) :=
    Work.run_bind_error (by rw [Work.run_look, hplan]) _
  rw [h] at herror
  cases herror

end Again

section Sources

variable {files files' files'' : FileTree} {settings : Settings} {report : BuildReport}
  {c : Content}

section

variable (run : BuildRun files settings report files')

include run

theorem BuildRun.supportPath_eq :
    AreNames (run.sources ++ [supportFile]) ∧
      settings.supportPath = ofNames (run.sources ++ [supportFile]) := by
  refine ⟨run.names.sources_names.concat isStep_supportFile, ?_⟩
  rw [Settings.supportPath, run.names.sources_eq]
  exact Path.join_ofNames run.names.sources_names isStep_supportFile

theorem BuildRun.isUnder_iff {k : List String} (hk : AreNames k) :
    (ofNames k).isUnder settings.output ↔ run.output <+: k := by
  rw [run.names.output_eq, Path.isUnder_ofNames hk run.names.output_names]

theorem BuildRun.finds_iff :
    settings.Finds files file c ↔
      file ∈ report.modules.map (·.file) ∧ files.contents file.path = .ok c := by
  have hfound := run.found_eq
  rw [← run.names.sources_eq] at hfound
  unfold Settings.Finds
  rw [hfound]
  simp

variable (h : files.IsSound) (hu : ¬ run.output <+: run.sources)

include h hu

theorem BuildRun.support_same :
    files'.isFile settings.supportPath = files.isFile settings.supportPath ∧
      ∀ c, files'.contents settings.supportPath = .ok c ↔
        files.contents settings.supportPath = .ok c := by
  obtain ⟨hnames, hpath⟩ := run.supportPath_eq
  have hk : run.output <+: run.sources ++ [supportFile] →
      run.sources ++ [supportFile] = run.output := by
    intro hp
    rcases prefix_concat_iff.1 hp with heq | hp
    · exact heq.symm
    · exact absurd hp hu
  rw [hpath]
  exact ⟨run.isFile_eq h hnames hk, fun c => run.contents_iff h hnames hk⟩

theorem BuildRun.content?_same (run' : BuildRun files' settings report' files'') :
    run'.plan.support.content? files' = run.plan.support.content? files := by
  obtain ⟨hfile, hcontents⟩ := run.support_same h hu
  rw [run'.isOf.support, run.isOf.support]
  unfold Settings.supportChoice
  rw [hfile]
  split
  · cases hc : files.contents settings.supportPath with
    | ok c => simp only [SupportChoice.content?, hc, (hcontents c).2 hc]
    | error e =>
      cases hc' : files'.contents settings.supportPath with
      | ok c =>
        rw [(hcontents c).1 hc'] at hc
        cases hc
      | error e' =>
        simp only [SupportChoice.content?, hc, hc']
        rfl
  · split
    · rfl
    · rfl

theorem BuildRun.sources_directory :
    files'.Leads run.sources ∧ files'.get? run.sources = some .directory := by
  obtain ⟨hl, hd, -⟩ := (discoverSources_ok run.names.sources_names).1 run.found_eq
  have hkept : files'.get? run.sources = some .directory := by
    rw [run.get?_outside fun hp => absurd hp hu, run.keeps _ hl (by simp [hd]) hu, hd]
  exact ⟨(run.isSound h).leads_of_get? hkept, hkept⟩

end

theorem contents_of_found {dir : List String} (h : files.IsSound) {names : List String}
    (hn : AreNames (dir ++ names)) (hpath : file.path = ofNames (dir ++ names)) :
    files.contents file.path = .ok c ↔
      files.get? (dir ++ names) = some (.file c) ∧ c ≠ .sealed := by
  rw [hpath, h.contents_iff hn]

theorem finds_of_below? {dir names : List String} (h : files.IsSound) (hdir : AreNames dir)
    (hsources : settings.sources = ofNames dir) (hl : files.Leads dir)
    (hd : files.get? dir = some .directory) (hne : names ≠ [])
    (hfile : SourceFile.below? (ofNames dir) (settings.skipped files) names = some file) :
    files.get? (dir ++ names) = some (.file c) ∧ c ≠ .sealed ↔
      AreNames (dir ++ names) ∧ settings.Finds files file c := by
  have hfound := discoverSources_of_directory hdir hl hd (settings.skipped files)
  have hpath (hall : AreNames (dir ++ names)) : file.path = ofNames (dir ++ names) :=
    path_of_below? hdir (fun x hx => hall x (mem_append_right _ hx)) hfile
  unfold Settings.Finds
  rw [hsources]
  constructor
  · intro hc
    have hall := h.areNames hc.1
    refine ⟨hall, ⟨_, hfound, ?_⟩, (contents_of_found h hall (hpath hall)).2 hc⟩
    exact (mem_discoverSources h hdir hfound).2 ⟨names, hne, ⟨c, hc.1⟩, hfile⟩
  · intro hc
    obtain ⟨hall, -, hc⟩ := hc
    exact (contents_of_found h hall (hpath hall)).1 hc

/-- The sources of a build were all read. -/
theorem BuildRun.contents_of_mem (run : BuildRun files settings report files')
    (hfile : file ∈ report.modules.map (·.file)) : ∃ c, files.contents file.path = .ok c := by
  obtain ⟨m, hm, rfl⟩ := mem_map.1 hfile
  obtain ⟨code, hcode⟩ := run.code_of_mem hm
  obtain ⟨s, hload, -⟩ := bind_ok.1 hcode
  unfold Source.load FileTree.read at hload
  cases hc : files.contents m.file.path with
  | ok c => exact ⟨c, rfl⟩
  | error e =>
    rw [hc] at hload
    cases hload

theorem BuildRun.not_sealed (run : BuildRun files settings report files') {k : List String}
    (hk : run.output <+: k) : files'.get? k ≠ some (.file .sealed) := by
  intro hsealed
  rw [run.files_eq] at hsealed
  rcases FileTree.file_of_putFiles hsealed with hbefore | ⟨f, hf, hc⟩
  · by_cases hkey : k = run.output
    · simp [hkey, run.fresh.directories _ (prefix_refl _)] at hbefore
    · simp [run.fresh.empty k hk hkey] at hbefore
  · rcases mem_append.1 hf with hf | hf
    · obtain ⟨m, -, rfl⟩ := mem_map.1 hf
      cases hc
    · obtain ⟨c, hsupport, rfl⟩ := mem_map.1 hf
      obtain rfl : c = .sealed := hc
      rw [Option.mem_toList] at hsupport
      cases hs : run.plan.support with
      | copied source =>
        rw [hs] at hsupport
        have hread : files.contents source = .ok .sealed :=
          ok_of_toOption (Option.mem_def.1 hsupport)
        obtain ⟨e, -, he⟩ := bind_ok.1 hread
        split at he <;> cases he
        rename_i hsealed
        exact hsealed rfl
      | bundled => simp [hs, SupportChoice.content?] at hsupport
      | omitted => simp [hs, SupportChoice.content?] at hsupport

theorem BuildRun.found_again (run : BuildRun files settings report files') (h : files.IsSound)
    (hu : ¬ run.output <+: run.sources) (hsame : settings.FindsSame files files') :
    discoverSources files' (ofNames run.sources) (settings.skipped files') =
      .ok (report.modules.map (·.file)) := by
  have hdir := run.names.sources_names
  have hskip : settings.skipped files' = settings.skipped files := by
    unfold Settings.skipped
    rw [(run.support_same h hu).1]
  obtain ⟨hl', hd'⟩ := run.sources_directory h hu
  obtain ⟨hl, hd, hfound⟩ := (discoverSources_ok hdir).1 run.found_eq
  rw [discoverSources_of_directory hdir hl' hd', hfound, hskip]
  congr 1
  refine filesBelow_sources_eq h (run.isSound h) ?_
  intro names hne hsome
  by_cases hk : run.output <+: run.sources ++ names
  · -- what is found in the output directory is the same by assumption, and can all be read
    obtain ⟨file, hfile⟩ := Option.isSome_iff_exists.1 hsome
    have hfile' := hfile
    rw [← hskip] at hfile'
    have hfinds (c : Content) :
        files'.get? (run.sources ++ names) = some (.file c) ∧ c ≠ .sealed ↔
          files.get? (run.sources ++ names) = some (.file c) ∧ c ≠ .sealed := by
      rw [finds_of_below? (run.isSound h) hdir run.names.sources_eq hl' hd' hne hfile',
        finds_of_below? h hdir run.names.sources_eq hl hd hne hfile]
      refine and_congr_right fun hall => hsame file c ?_
      rw [path_of_below? hdir (fun x hx => hall x (mem_append_right _ hx)) hfile]
      exact (run.isUnder_iff hall).2 hk
    constructor
    · rintro ⟨c, hc⟩
      exact ⟨c, ((hfinds c).1 ⟨hc, fun hs => run.not_sealed hk (hs ▸ hc)⟩).1⟩
    · rintro ⟨c, hc⟩
      have hall := h.areNames hc
      obtain ⟨c', hc'⟩ := run.contents_of_mem
        ((mem_discoverSources h hdir run.found_eq).2 ⟨names, hne, ⟨c, hc⟩, hfile⟩)
      rw [path_of_below? hdir (fun x hx => hall x (mem_append_right _ hx)) hfile,
        h.contents_iff hall] at hc'
      exact ⟨c', ((hfinds c').2 hc').1⟩
  · exact exists_congr fun c => run.file_iff h fun hp => absurd hp hk

/-- The sources of a build can be read again when the output directory holds the same ones. -/
theorem BuildRun.contents_again (run : BuildRun files settings report files') (h : files.IsSound)
    (hsame : settings.FindsSame files files') (hm : m ∈ report.modules) :
    ∃ c, files.contents m.file.path = .ok c ∧ files'.contents m.file.path = .ok c := by
  have hmem : m.file ∈ report.modules.map (·.file) := mem_map_of_mem hm
  obtain ⟨names, -, hall, hpath, -⟩ :=
    names_of_found h run.names.sources_names run.found_eq hmem
  obtain ⟨c, hcontents⟩ := run.contents_of_mem hmem
  refine ⟨c, hcontents, ?_⟩
  by_cases hk : run.output <+: run.sources ++ names
  · refine ((hsame m.file c ?_).2 (run.finds_iff.2 ⟨hmem, hcontents⟩)).2
    rw [hpath]
    exact (run.isUnder_iff hall).2 hk
  · rw [hpath] at hcontents ⊢
    exact (run.contents_iff h hall fun hp => absurd hp hk).2 hcontents

end Sources

structure BuildReport.Repeats (report : BuildReport) (files : FileTree) (settings : Settings)
    (files' : FileTree) : Prop where
  sources : ∀ m ∈ report.modules, ∃ c, files.contents m.file.path = .ok c ∧
    files'.contents m.file.path = .ok c
  again : ∃ files'', (buildProject settings).run files' = (.ok report, files'') ∧
    files''.Same files'

def BuildReport.CompilesSame (report : BuildReport) (files : FileTree) (settings : Settings)
    (files' : FileTree) : Prop :=
  ∀ m ∈ report.modules, ∃ code, settings.codeOf files' m.file = .ok code ∧
    (report.keptIn? m.output = some m → settings.codeOf files m.file = .ok code)

section Repeats

variable {files files' : FileTree} {settings : Settings} {report : BuildReport}

theorem BuildRun.modules_of_files (run : BuildRun files settings report files') :
    report.modules =
      (report.modules.map (·.file)).map fun file => ⟨file, outputPath settings file⟩ := by
  rw [map_map]
  refine (map_id' _).symm.trans (map_congr_left ?_)
  intro m hm
  have hout : m.output = outputPath settings m.file := run.output_of_mem hm
  obtain ⟨file, output⟩ := m
  exact congrArg (BuiltModule.mk file) hout

theorem BuildRun.report_same (run : BuildRun files settings report files') (h : files.IsSound)
    (hu : ¬ run.output <+: run.sources) {files'' : FileTree}
    (run' : BuildRun files' settings report' files'')
    (hfound : report'.modules.map (·.file) = report.modules.map (·.file)) : report' = report := by
  have hmodules : report'.modules = report.modules := by
    rw [run'.modules_of_files, hfound, ← run.modules_of_files]
  have hsupport : report'.support = report.support := by
    rw [run'.support_eq, run.support_eq, run.content?_same h hu run', run.output_same run']
  have houtput : report'.output = report.output :=
    ((congrArg BuildReport.output run'.report_eq).trans run'.isOf.output).trans
      ((congrArg BuildReport.output run.report_eq).trans run.isOf.output).symm
  cases report
  cases report'
  simp only at hmodules hsupport houtput
  rw [hmodules, hsupport, houtput]

theorem BuildRun.not_under (run : BuildRun files (settings.absolute files.base) report files')
    (h : (buildProject settings).run files = (.ok report, files')) :
    ¬ run.output <+: run.sources := by
  have hunder := sources_not_under h
  intro hp
  rw [run.names.sources_eq, run.names.output_eq,
    (Path.isUnder_ofNames run.names.sources_names run.names.output_names).2 hp] at hunder
  cases hunder

theorem BuildRun.repeats (run : BuildRun files (settings.absolute files.base) report files')
    (hsound : files.IsSound) (hb : files.base.isAbsolute) (hin : settings.StaysInside files.base)
    (h : (buildProject settings).run files = (.ok report, files'))
    (hfinds : (settings.absolute files.base).FindsSame files files')
    (hcompiles : report.CompilesSame files (settings.absolute files.base) files') :
    report.Repeats files settings files' := by
  have hunder := sources_not_under h
  have hu := run.not_under h
  refine ⟨fun m hm => run.contents_again hsound hfinds hm, ?_⟩
  have hfound := run.found_again hsound hu hfinds
  rw [← run.names.sources_eq] at hfound
  obtain ⟨plan, hplan⟩ : ∃ plan,
      Plan.ofSources files' (settings.absolute files.base) = .ok plan := by
    refine ofSources_ok hfound ?_
    intro file hfile
    obtain ⟨m, hm, rfl⟩ := mem_map.1 hfile
    obtain ⟨code, hcode, -⟩ := hcompiles m hm
    exact ⟨code, hcode⟩
  have hdirectory := run.get?_output_eq
  have hleads := (run.isSound hsound).leads_of_get? hdirectory
  obtain ⟨u, hens⟩ := ensure_drop hleads run.isFor.nonempty (run.output_short hsound)
  have hreset : (Work.resetDirectory (ofNames run.output)).run files' = (.ok (), u) := by
    rw [resetDirectory_of_directory run.names.output_names hleads hdirectory]
    exact Work.run_createDirectory_ok
      ((FileTree.createDirectory_ofNames run.names.output_names).trans hens)
  rw [← run.names.output_eq] at hreset
  have hsupport : ∀ source, plan.support = .copied source →
      ∃ c, files'.contents source = .ok c := by
    intro source hs
    obtain ⟨rfl, hfile⟩ := (isOf_ofSources hplan).copied hs
    obtain ⟨hisFile, hcontents⟩ := run.support_same hsound hu
    rw [hisFile] at hfile
    obtain ⟨c, hc⟩ := run.readable _ (by rw [run.isOf.support, Settings.supportChoice, if_pos hfile])
    exact ⟨c, (hcontents c).2 hc⟩
  have hbase := run.base_eq
  rw [← hbase] at hunder hplan hreset hb hin
  obtain ⟨report', files'', hrun⟩ := buildProject_ok hb hin hunder hplan hsupport hreset
  obtain ⟨run'⟩ := hbase ▸ exists_buildRun hb hin hrun
  have hfiles : report'.modules.map (·.file) = report.modules.map (·.file) := by
    have hagain := run'.found_eq
    rw [← run'.names.sources_eq, hfound] at hagain
    exact (Except.ok.inj hagain).symm
  obtain rfl := run.report_same hsound hu run' hfiles
  refine ⟨files'', hrun, run.same run' (run.content?_same hsound hu run') ?_⟩
  intro m hm hkept
  obtain ⟨code, hcode, hsame⟩ := hcompiles m hm
  rw [hcode, hsame hkept]

theorem BuildRun.same_of_repeats (run : BuildRun files (settings.absolute files.base) report files')
    (hb : files.base.isAbsolute) (hin : settings.StaysInside files.base)
    (h : report.Repeats files settings files') :
    (settings.absolute files.base).FindsSame files files' ∧
      report.CompilesSame files (settings.absolute files.base) files' := by
  obtain ⟨files'', hrun, -, hget⟩ := h.again
  have hbase := run.base_eq
  rw [← hbase] at hb hin
  obtain ⟨run'⟩ := hbase ▸ exists_buildRun hb hin hrun
  constructor
  · intro file c _
    rw [run'.finds_iff, run.finds_iff]
    refine and_congr_right fun hmem => ?_
    obtain ⟨m, hm, rfl⟩ := mem_map.1 hmem
    obtain ⟨c', hc, hc'⟩ := h.sources m hm
    rw [hc, hc']
  · intro m hm
    obtain ⟨code, hcode⟩ := run'.code_of_mem hm
    refine ⟨code, hcode, ?_⟩
    intro hkept
    rw [run.output_of_mem hm] at hkept
    obtain ⟨hnames, hpath⟩ := run.moduleFile_eq m.file.path
    obtain ⟨before, hbefore, hcontents⟩ := run.contents_of_keptIn? hkept
    obtain ⟨after, hafter, hcontents'⟩ := run'.contents_of_keptIn? hkept
    rw [hpath, FileTree.contents_ofNames hnames] at hcontents hcontents'
    have hsame := hcontents'.2.1
    rw [hget, hcontents.2.1] at hsame
    obtain rfl : code = after := Except.ok.inj (hcode.symm.trans hafter)
    cases hsame
    exact hbefore

end Repeats

def BuildReport.ImportsApart (report : BuildReport) (files : FileTree) (dir : Path) : Prop :=
  ∀ m ∈ report.modules, ∀ s, Source.load files m.file = .ok s → ∀ source ∈ s.script.sources,
    .up ∉ (importPlace m.file.path source).components ∧
      (importPlace m.file.path source).isUnder dir = false

section Apart

variable {files files' : FileTree} {settings : Settings} {report : BuildReport}

theorem load_congr {c : Content} (hc : files.contents file.path = .ok c)
    (hc' : files'.contents file.path = .ok c) :
    Source.load files' file = Source.load files file := by
  have hread : files'.read file.path = files.read file.path := by
    unfold FileTree.read
    rw [hc, hc']
  unfold Source.load
  rw [hread]

variable (run : BuildRun files settings report files')

include run

theorem BuildRun.resolve_same (h : files.IsSound) (hm : m ∈ report.modules) {source : String}
    (hup : .up ∉ (importPlace m.file.path source).components)
    (hout : (importPlace m.file.path source).isUnder settings.output = false) :
    resolveImport files' m.file.path source = resolveImport files m.file.path source := by
  obtain ⟨names, hne, hall, hpath, -⟩ := names_of_found h run.names.sources_names run.found_eq
    (mem_map_of_mem hm)
  obtain ⟨dir, x, hlast⟩ := (eq_nil_or_concat' (run.sources ++ names)).resolve_left
    (by simp [hne])
  rw [hpath, hlast] at hup hout ⊢
  obtain ⟨place, hplace, hplace'⟩ := importPlace_ofNames (hlast ▸ hall) hup
  have hnot : ¬ run.output <+: place := by
    intro hp
    rw [hplace', (run.isUnder_iff hplace).2 hp] at hout
    cases hout
  rw [resolveImport_eq, resolveImport_eq]
  apply find?_congr
  intro q hq
  obtain ⟨ending, he, rfl⟩ := mem_map.1 hq
  obtain ⟨names', hnames', heq, hprefix⟩ := ofNames_append hplace he
  rw [hplace', heq]
  refine run.isFile_eq h hnames' fun hp => ?_
  rcases hprefix run.output hp with hsame | hp
  · exact hsame.symm
  · exact absurd hp hnot

theorem BuildRun.outside_of_found (hu : ¬ run.output <+: run.sources)
    (hs : ¬ run.sources <+: run.output) (names : List String) :
    ¬ run.output <+: run.sources ++ names := by
  intro hp
  rcases prefix_or_prefix_of_prefix hp (prefix_append run.sources names) with hp | hp
  · exact hu hp
  · exact hs hp

theorem BuildRun.findsSame (h : files.IsSound) (hu : ¬ run.output <+: run.sources)
    (hs : ¬ run.sources <+: run.output) : settings.FindsSame files files' := by
  intro file c hunder
  have hnone (t : FileTree) (ht : t.IsSound) : ¬ settings.Finds t file c := by
    intro hfinds
    obtain ⟨⟨found, hfound, hmem⟩, -⟩ := hfinds
    rw [run.names.sources_eq] at hfound
    obtain ⟨names, -, hall, hpath, -⟩ := names_of_found ht run.names.sources_names hfound hmem
    rw [hpath] at hunder
    exact run.outside_of_found hu hs names ((run.isUnder_iff hall).1 hunder)
  exact iff_of_false (hnone files' (run.isSound h)) (hnone files h)

theorem BuildRun.codeOf_same (h : files.IsSound) (hu : ¬ run.output <+: run.sources)
    (hs : ¬ run.sources <+: run.output)
    (hapart : report.ImportsApart files settings.output) (hm : m ∈ report.modules) :
    settings.codeOf files' m.file = settings.codeOf files m.file := by
  have hfinds := run.findsSame h hu hs
  have hload {m : BuiltModule} (hm : m ∈ report.modules) :
      Source.load files' m.file = Source.load files m.file := by
    obtain ⟨c, hc, hc'⟩ := run.contents_again h hfinds hm
    exact load_congr hc hc'
  have hshared {m : BuiltModule} (hm : m ∈ report.modules) {s : Source}
      (hsource : Source.load files m.file = .ok s) :
      SharesOrigins files files' s.file.path s.script := by
    intro source hmem
    obtain ⟨hup, hout⟩ := hapart m hm s hsource source hmem
    rw [load_file hsource]
    exact run.resolve_same h hm hup hout
  have hcells : settings.cells files' = settings.cells files := by
    have hfound := run.found_eq
    have hagain := run.found_again h hu hfinds
    rw [← run.names.sources_eq] at hfound hagain
    unfold Settings.cells
    rw [hfound, hagain]
    change ((report.modules.map (·.file)).mapM (Source.load files') >>= linkSources files') =
      ((report.modules.map (·.file)).mapM (Source.load files) >>= linkSources files)
    have hloads : (report.modules.map (·.file)).mapM (Source.load files') =
        (report.modules.map (·.file)).mapM (Source.load files) := by
      apply mapM_congr
      intro file hfile
      obtain ⟨m, hm, rfl⟩ := mem_map.1 hfile
      exact hload hm
    rw [hloads]
    refine bind_congr_ok fun loaded hloaded => ?_
    apply linkSources_congr
    · intro s hmem
      obtain ⟨file, hfile, hs⟩ := mapM_ok hloaded s hmem
      rw [load_file hs]
      exact kind_of_found run.found_eq hfile
    · intro s hmem
      obtain ⟨file, hfile, hs⟩ := mapM_ok hloaded s hmem
      obtain ⟨m, hm, rfl⟩ := mem_map.1 hfile
      exact hshared hm hs
  unfold Settings.codeOf
  rw [hload hm, hcells]
  refine bind_congr_ok fun s hsource => ?_
  refine bind_congr_ok fun table _ => ?_
  rw [Source.compile_eq, Source.compile_eq, emitted_congr (hshared hm hsource)]

theorem BuildRun.not_skipped (hu : ¬ run.output <+: run.sources) {name : String}
    (hnames : AreNames (run.output ++ [name])) :
    ∀ x ∈ settings.skipped files',
      ofNames (run.output ++ [name]) ≠ ofNames (run.sources ++ [x]) := by
  intro x hx heq
  have hstep : (Component.name x).IsStep := by
    unfold Settings.skipped at hx
    split at hx
    · rw [mem_singleton.1 hx]
      exact isStep_supportFile
    · cases hx
  have hsame := ofNames_inj hnames (run.names.sources_names.concat hstep) heq
  have hdirs : run.output = run.sources := (append_inj' hsame rfl).1
  exact hu (hdirs ▸ prefix_refl _)

theorem BuildRun.finds_output (h : files.IsSound) (hu : ¬ run.output <+: run.sources)
    (hs : run.sources <+: run.output) (hm : m ∈ report.modules)
    {kind : SourceKind} (hkind : SourceKind.ofPath? m.output = some kind) :
    ∃ c, settings.Finds files' ⟨m.output, kind⟩ c := by
  obtain ⟨hnames, hpath⟩ := run.moduleFile_eq m.file.path
  have hout := (run.output_of_mem hm).trans hpath
  have hfile := (run.isFile_moduleFile m.file.path).2 (.inl (mem_map_of_mem hm))
  rw [hpath] at hfile
  obtain ⟨hl, c, hc⟩ := (FileTree.isFile_ofNames hnames).1 hfile
  obtain ⟨hl', hd'⟩ := run.sources_directory h hu
  have hfound := discoverSources_of_directory run.names.sources_names hl' hd'
    (settings.skipped files')
  have hunder := (Path.isUnder_ofNames hnames run.names.sources_names).2
    (hs.trans (prefix_append _ _))
  rw [hout] at hkind ⊢
  have hmem := found_of_isFile (run.isSound h) run.names.sources_names hfound hnames hfile hunder
    hkind (run.not_skipped hu hnames)
  refine ⟨c, ⟨_, ?_, hmem⟩, (FileTree.contents_ofNames hnames).2 ⟨hl, hc, ?_⟩⟩
  · rw [run.names.sources_eq]
    exact hfound
  · rintro rfl
    exact run.not_sealed (prefix_append _ _) hc

end Apart

/-- A build changes no file outside its output directory. It repeats just when the output directory
holds the same sources as before and each source is compiled to the same code: so when the output is
not among the sources and no import leads into it, and not when the output is among the sources and
a file is written there that is a source now. -/
theorem builds_repeat_iff {settings : Settings} {files files' : FileTree} {report : BuildReport}
    (hsound : files.IsSound) (hb : files.base.isAbsolute) (hin : settings.StaysInside files.base)
    (h : (buildProject settings).run files = (.ok report, files')) :
    (∀ names c, AreNames names →
      (ofNames names).isUnder (settings.absolute files.base).output = false →
      (files'.contents (ofNames names) = .ok c ↔ files.contents (ofNames names) = .ok c)) ∧
    (report.Repeats files settings files' ↔
      (settings.absolute files.base).FindsSame files files' ∧
        report.CompilesSame files (settings.absolute files.base) files') ∧
    ((settings.absolute files.base).output.isUnder (settings.absolute files.base).sources = false →
      report.ImportsApart files (settings.absolute files.base).output →
      report.Repeats files settings files') ∧
    ((settings.absolute files.base).output.isUnder (settings.absolute files.base).sources →
      ∀ m ∈ report.modules, SourceKind.ofPath? m.output ≠ none →
        m.output ∉ report.modules.map (·.file.path) → ¬ report.Repeats files settings files') := by
  obtain ⟨run⟩ := exists_buildRun hb hin h
  have hu := run.not_under h
  refine ⟨?_, ⟨run.same_of_repeats hb hin, ?_⟩, ?_, ?_⟩
  · intro names c hnames hout
    refine run.contents_iff hsound hnames fun hp => ?_
    rw [(run.isUnder_iff hnames).2 hp] at hout
    cases hout
  · intro hsame
    exact run.repeats hsound hb hin h hsame.1 hsame.2
  · intro hout hapart
    have hs : ¬ run.sources <+: run.output := by
      intro hp
      rw [run.names.sources_eq, run.names.output_eq,
        (Path.isUnder_ofNames run.names.output_names run.names.sources_names).2 hp] at hout
      cases hout
    refine run.repeats hsound hb hin h (run.findsSame hsound hu hs) ?_
    intro m hm
    obtain ⟨code, hcode⟩ := run.code_of_mem hm
    exact ⟨code, (run.codeOf_same hsound hu hs hapart hm).trans hcode, fun _ => hcode⟩
  · intro hout m hm hkind hnew hrepeats
    rw [run.names.sources_eq, run.names.output_eq,
      Path.isUnder_ofNames run.names.output_names run.names.sources_names] at hout
    obtain ⟨kind, hkind⟩ := Option.ne_none_iff_exists'.1 hkind
    obtain ⟨c, hfinds⟩ := run.finds_output hsound hu hout hm hkind
    have hunder : m.output.isUnder (settings.absolute files.base).output := by
      obtain ⟨hnames, hpath⟩ := run.moduleFile_eq m.file.path
      rw [run.output_of_mem hm, hpath]
      exact (run.isUnder_iff hnames).2 (prefix_append _ _)
    have hbefore := ((run.same_of_repeats hb hin hrepeats).1 ⟨m.output, kind⟩ c hunder).1 hfinds
    obtain ⟨b, hb, hfile⟩ := mem_map.1 (run.finds_iff.1 hbefore).1
    exact hnew (mem_map.2 ⟨b, hb, congrArg SourceFile.path hfile⟩)

def plainSettings : Settings :=
  { writesSupport := false }

theorem forwardingPair_repeats :
    ∃ report files, (buildProject plainSettings).run forwardingPair = (.ok report, files) ∧
      report.Repeats forwardingPair plainSettings files := by
  have hmodules : ((buildProject plainSettings).run forwardingPair).1.toOption.map
      (·.modules.map (·.file)) =
      some [⟨⟨"/proj/src/a.js"⟩, .script⟩, ⟨⟨"/proj/src/b.js"⟩, .script⟩] := by
    decide +kernel
  obtain ⟨report, hreport, hmodules⟩ := Option.map_eq_some_iff.1 hmodules
  obtain ⟨files, hrun⟩ := exists_built hreport
  have hin : plainSettings.StaysInside forwardingPair.base :=
    ⟨by decide +kernel, by decide +kernel⟩
  have hrepeats := builds_repeat_iff (by decide +kernel) (by decide +kernel) hin hrun
  refine ⟨report, files, hrun, hrepeats.2.2.1 (by decide +kernel) ?_⟩
  intro m hm s hs
  have hfile : m.file ∈ [⟨⟨"/proj/src/a.js"⟩, .script⟩, ⟨⟨"/proj/src/b.js"⟩, .script⟩] := by
    rw [← hmodules]
    exact mem_map_of_mem hm
  simp only [mem_cons, not_mem_nil, or_false] at hfile
  rcases hfile with hfile | hfile
  · have hload : Source.load forwardingPair m.file = .ok forwardingModule := by
      rw [hfile]
      exact ok_of_toOption (by decide +kernel)
    obtain rfl : forwardingModule = s := Except.ok.inj (hload.symm.trans hs)
    rw [hfile]
    decide +kernel
  · have hload : Source.load forwardingPair m.file =
        .ok ⟨⟨⟨"/proj/src/b.js"⟩, .script⟩, "export let c = 1, x = 2;"⟩ := by
      rw [hfile]
      exact ok_of_toOption (by decide +kernel)
    obtain rfl := Except.ok.inj (hload.symm.trans hs)
    rw [hfile]
    decide +kernel

def nestedSettings : Settings :=
  { output := ⟨"src/out"⟩, writesSupport := false }

def nestedOutput : FileTree :=
  smallProject [("a.js", "let a = 1;")]

/-- What the first build has written is a source file for the second one. -/
theorem nestedOutput_not_repeated :
    ((buildProject nestedSettings).run nestedOutput).1.toOption.map
        (·.modules.map (·.file.path.text)) = some ["/proj/src/a.js"] ∧
      ((buildProject nestedSettings).run
        ((buildProject nestedSettings).run nestedOutput).2).1.toOption.map
          (·.modules.map (·.file.path.text)) = some ["/proj/src/a.js", "/proj/src/out/a.js"] := by
  decide +kernel

end WidgetCompiler
