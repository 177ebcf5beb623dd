import WidgetCompiler.Project
import WidgetCompiler.Proofs.Project.FileTrees

namespace WidgetCompiler

open List
open WidgetCompiler.Path (ofNames AreNames)

namespace Work

variable {α β : Type} {t t' : FileTree} {e : Problem}

theorem run_bind (x : Work α) (f : α → Work β) :
    (x >>= f).run t = (ExceptT.bindCont f (x.run t).1).run (x.run t).2 :=
  rfl

theorem run_bind_ok {x : Work α} {a : α} {u : FileTree} (h : x.run t = (.ok a, u))
    (f : α → Work β) : (x >>= f).run t = (f a).run u := by
  rw [run_bind, h]
  rfl

theorem run_bind_error {x : Work α} {u : FileTree} (h : x.run t = (.error e, u))
    (f : α → Work β) : (x >>= f).run t = (.error e, u) := by
  rw [run_bind, h]
  rfl

theorem run_look (f : FileTree → Except Problem α) : (look f).run t = (f t, t) :=
  rfl

theorem run_change_ok {path : Path} {f : FileTree → Except Cause FileTree} (h : f t = .ok t') :
    (change path f).run t = (.ok (), t') := by
  simp [change, run, h]

theorem run_createDirectory_ok {path : Path} (h : t.createDirectory path = .ok t') :
    (createDirectory path).run t = (.ok (), t') := by
  unfold createDirectory run
  beta_reduce
  rw [h]

theorem run_createDirectory_error {path : Path} {cause : Cause}
    (h : t.createDirectory path = .error (cause, t')) :
    (createDirectory path).run t = (.error (.ofFile cause path.text), t') := by
  unfold createDirectory run
  beta_reduce
  rw [h]

end Work

structure FileTree.IsFresh (t : FileTree) (key : List String) : Prop where
  directories : ∀ k, k <+: key → t.get? k = some .directory
  empty : ∀ k, key <+: k → k ≠ key → t.get? k = none

/-- All that can be reached from the root, and not by way of the place `key`, is as before. -/
def FileTree.KeepsOutside (t : FileTree) (key : List String) (t' : FileTree) : Prop :=
  ∀ k, t.Leads k → t.get? k ≠ none → ¬ key <+: k → t'.get? k = t.get? k

section Reset

variable {t t' u : FileTree} {key : List String}

theorem FileTree.ensure_missing {done rest : List String} (h : t.ensure done rest = .ok t') :
    (∀ xs, xs <+: rest → xs ≠ [] → t.get? (done ++ xs) = some .directory) ∨
      ∃ xs, xs <+: rest ∧ xs ≠ [] ∧ t.get? (done ++ xs) = none := by
  induction rest generalizing t done with
  | nil => exact .inl fun xs hxs hne => absurd (prefix_nil.1 hxs) hne
  | cons x rest ih =>
    rw [FileTree.ensure] at h
    split at h
    · rename_i hd
      rcases ih h with hall | ⟨xs, hxs, hne, hnone⟩
      · refine .inl fun ys hys hne => ?_
        obtain ⟨zs, rfl, hzs⟩ := (prefix_cons_iff.1 hys).resolve_left hne
        by_cases hz : zs = []
        · simpa [hz] using hd
        · simpa using hall zs hzs hz
      · exact .inr ⟨x :: xs, by simpa using hxs, by simp, by simpa using hnone⟩
    · cases h
    · cases h
    · exact .inr ⟨[x], by simp, by simp, ‹_›⟩

theorem FileTree.isFresh_of_ensure (h : t.ensure [] key = .ok t')
    (hm : ∃ xs, xs <+: key ∧ xs ≠ [] ∧ t.get? xs = none) : t'.IsFresh key where
  directories k hk := by
    by_cases hne : k = []
    · subst hne
      rfl
    · exact FileTree.ensure_directory h hk hne
  empty k hk hne := FileTree.ensure_empty h hm hk hne

theorem FileTree.keepsOutside_ensure (h : t.ensure [] key = .ok t') : t.KeepsOutside key t' := by
  intro k hl hk _
  refine FileTree.ensure_get? h fun xs _ _ hxs => ?_
  by_cases he : xs = k
  · simpa [he] using hk
  · simp [hl xs hxs he]

theorem FileTree.keepsOutside_drop (hne : key ≠ []) : t.KeepsOutside key (t.drop key) := by
  intro k _ _ hk
  rw [FileTree.get?_drop hne, if_neg hk]

theorem FileTree.KeepsOutside.leads {k : List String} (h : t.KeepsOutside key t') (hl : t.Leads k)
    (hk : ¬ key <+: k) : t'.Leads k := by
  intro j hj hne
  rw [h j (hl.above hj) (by simp [hl j hj hne]) fun hp => hk (hp.trans hj)]
  exact hl j hj hne

theorem FileTree.KeepsOutside.trans (h : t.KeepsOutside key u) (h' : u.KeepsOutside key t') :
    t.KeepsOutside key t' := by
  intro k hl hk hout
  have hu := h k hl hk hout
  rw [h' k (h.leads hl hout) (hu ▸ hk) hout, hu]

theorem FileTree.Leads.drop (h : t.Leads key) (hne : key ≠ []) {k : List String} (hk : k <+: key)
    (hkey : k ≠ key) : (t.drop key).get? k = some .directory := by
  rw [FileTree.get?_drop hne, if_neg, h k hk hkey]
  exact fun hp => hkey (hk.eq_of_length_le hp.length_le)

theorem resetDirectory_run (dir : Path) :
    (Work.resetDirectory dir).run t =
      if t.has dir then
        (Work.change dir (·.removeDirectory dir) >>= fun _ => Work.createDirectory dir).run t
      else (Work.createDirectory dir).run t := by
  rw [Work.resetDirectory, Work.run_bind_ok (show (get : Work FileTree).run t = (.ok t, t) from rfl)]
  split <;> rfl

theorem ensure_drop (hl : t.Leads key) (hne : key ≠ [])
    (hlast : ∀ x ∈ key.getLast?, FileTree.isLong x = false) :
    ∃ t', (t.drop key).ensure [] key = .ok t' := by
  apply FileTree.ensure_ok
  · intro xs hxs c
    by_cases hx : xs = key
    · subst hx
      simp [FileTree.get?_drop hne]
    · simp [hl.drop hne hxs hx]
  · intro xs x hp ⟨ys, hys, hnil, hnone⟩
    -- only the directory itself is missing, so its name is the last one
    obtain rfl : ys = key := by
      by_contra hy
      simp [hl.drop hne (hys.trans hp) hy] at hnone
    have hkey : xs ++ [x] = ys := hp.eq_of_length_le hys.length_le
    exact hlast x (by simp [← hkey])

theorem resetDirectory_of_directory (h : AreNames key) (hl : t.Leads key)
    (hd : t.get? key = some .directory) :
    (Work.resetDirectory (ofNames key)).run t = (Work.createDirectory (ofNames key)).run (t.drop key) := by
  have hremove : t.removeDirectory (ofNames key) = .ok (t.drop key) :=
    (FileTree.removeDirectory_ofNames h).2 ⟨hl, hd, rfl⟩
  have hremoved : (Work.change (ofNames key) (·.removeDirectory (ofNames key))).run t =
      (.ok (), t.drop key) :=
    Work.run_change_ok hremove
  rw [resetDirectory_run, if_pos ((FileTree.has_ofNames h).2 ⟨hl, _, hd⟩),
    Work.run_bind_ok hremoved]

/-- Emptying a directory takes it away if it is there and makes it anew, or changes nothing, unless
there is too long a name. -/
theorem resetDirectory_steps (h : AreNames key) (hne : key ≠ []) (t : FileTree) :
    (∃ w t', (w = t ∨ w = t.drop key) ∧ w.ensure [] key = .ok t' ∧
      (∃ xs, xs <+: key ∧ xs ≠ [] ∧ w.get? xs = none) ∧
      (∀ c, t.Leads key → t.get? key ≠ some (.file c)) ∧
      (Work.resetDirectory (ofNames key)).run t = (.ok (), t')) ∨
    ∃ cause t', (Work.resetDirectory (ofNames key)).run t =
        (.error (.ofFile cause (ofNames key).text), t') ∧
      (t' = t ∨ ∃ x ∈ key, FileTree.isLong x = true) := by
  by_cases hhas : t.has (ofNames key)
  · obtain ⟨hl, e, he⟩ := (FileTree.has_ofNames h).1 hhas
    cases hr : t.removeDirectory (ofNames key) with
    | error cause =>
      have hfailed : (Work.change (ofNames key) (·.removeDirectory (ofNames key))).run t =
          (.error (.ofFile cause (ofNames key).text), t) := by
        simp [Work.change, Work.run, hr]
      rw [resetDirectory_run, if_pos hhas]
      exact .inr ⟨_, t, Work.run_bind_error hfailed _, .inl rfl⟩
    | ok u =>
      obtain ⟨-, hd, rfl⟩ := (FileTree.removeDirectory_ofNames h).1 hr
      have hgone : (t.drop key).get? key = none := by
        rw [FileTree.get?_drop hne, if_pos (prefix_refl _)]
      have hcreate := FileTree.createDirectory_ofNames (t := t.drop key) h
      rw [resetDirectory_of_directory h hl hd]
      cases hens : (t.drop key).ensure [] key with
      | ok t' =>
        exact .inl ⟨_, t', .inr rfl, hens, ⟨key, prefix_refl _, hne, hgone⟩,
          fun c _ => by simp [hd], Work.run_createDirectory_ok (hcreate.trans hens)⟩
      | error failed =>
        refine .inr ⟨_, _, Work.run_createDirectory_error (hcreate.trans hens), .inr ?_⟩
        by_contra hnone
        obtain ⟨t', ht'⟩ := ensure_drop hl hne fun x hx =>
          Bool.eq_false_iff.2 fun hlong => hnone ⟨x, mem_of_mem_getLast? hx, hlong⟩
        rw [hens] at ht'
        cases ht'
  · rw [resetDirectory_run, if_neg hhas]
    rw [FileTree.has_ofNames h] at hhas
    have hcreate := FileTree.createDirectory_ofNames (t := t) h
    cases he : t.ensure [] key with
    | error failed =>
      refine .inr ⟨_, _, Work.run_createDirectory_error (hcreate.trans he), ?_⟩
      rcases FileTree.ensure_error he with hlong | ⟨hsame, -⟩
      · exact .inr hlong
      · exact .inl hsame
    | ok t' =>
      refine .inl ⟨t, t', .inl rfl, he, ?_, fun c hl hc => hhas ⟨hl, _, hc⟩,
        Work.run_createDirectory_ok (hcreate.trans he)⟩
      rcases FileTree.ensure_missing he with hall | hm
      · refine absurd ⟨fun k hk hkey => ?_, _, hall key (prefix_refl _) hne⟩ hhas
        by_cases hnil : k = []
        · subst hnil
          rfl
        · exact hall k hk hnil
      · exact hm

/-- Emptying a directory works and leaves the rest alone, or changes nothing, unless there is too
long a name. -/
theorem resetDirectory_cases (h : AreNames key) (hne : key ≠ []) (t : FileTree) :
    (∃ t', (Work.resetDirectory (ofNames key)).run t = (.ok (), t') ∧ t'.IsFresh key ∧
      t.KeepsOutside key t' ∧ ∀ c, t.Leads key → t.get? key ≠ some (.file c)) ∨
    ∃ cause t', (Work.resetDirectory (ofNames key)).run t =
        (.error (.ofFile cause (ofNames key).text), t') ∧
      (t' = t ∨ ∃ x ∈ key, FileTree.isLong x = true) := by
  rcases resetDirectory_steps h hne t with ⟨w, t', hw, hens, hm, hf, hrun⟩ | he
  · refine .inl ⟨t', hrun, FileTree.isFresh_of_ensure hens hm, ?_, hf⟩
    rcases hw with rfl | rfl
    · exact FileTree.keepsOutside_ensure hens
    · exact (FileTree.keepsOutside_drop hne).trans (FileTree.keepsOutside_ensure hens)
  · exact .inr he

end Reset

def outputName (sources : Path) (file : SourceFile) : String :=
  moduleName file.path sources ++ ".js"

def FileTree.putFiles (t : FileTree) (key : List String) (files : List (String × Content)) :
    FileTree :=
  files.foldl (fun t f => t.put (key ++ [f.1]) (.file f.2)) t

structure FileTree.IsOpen (t : FileTree) (key : List String) : Prop where
  directories : ∀ k, k <+: key → t.get? k = some .directory
  files : ∀ x, t.get? (key ++ [x]) ≠ some .directory

section Writing

variable {t u : FileTree} {key k : List String} {x : String} {c : Content}
  {files : List (String × Content)}

theorem FileTree.IsFresh.isOpen (h : t.IsFresh key) : t.IsOpen key where
  directories := h.directories
  files x := by simp [h.empty (key ++ [x]) (prefix_append _ _) (by simp)]

theorem FileTree.IsOpen.leads (h : t.IsOpen key) (x : String) : t.Leads (key ++ [x]) := by
  intro k hk hne
  exact h.directories k ((prefix_concat_iff.1 hk).resolve_left hne)

theorem FileTree.IsOpen.put (h : t.IsOpen key) (x : String) (c : Content) :
    (t.put (key ++ [x]) (.file c)).IsOpen key where
  directories k hk := by
    rw [FileTree.get?_put (by simp), if_neg, h.directories k hk]
    rintro rfl
    exact absurd hk.length_le (by simp)
  files y := by
    rw [FileTree.get?_put (by simp)]
    split
    · simp
    · exact h.files y

theorem FileTree.IsOpen.putFiles (h : t.IsOpen key) (files : List (String × Content)) :
    (t.putFiles key files).IsOpen key := by
  induction files generalizing t with
  | nil => exact h
  | cons f files ih => exact ih (h.put f.1 f.2)

theorem FileTree.putFiles_append (t : FileTree) (key : List String) (as bs : List (String × Content)) :
    t.putFiles key (as ++ bs) = (t.putFiles key as).putFiles key bs :=
  foldl_append

theorem FileTree.get?_putFiles_of_ne (h : ∀ f ∈ files, k ≠ key ++ [f.1]) :
    (t.putFiles key files).get? k = t.get? k := by
  induction files generalizing t with
  | nil => rfl
  | cons f files ih =>
    rw [FileTree.putFiles, foldl_cons, ← FileTree.putFiles,
      ih fun g hg => h g (mem_cons_of_mem _ hg), FileTree.get?_put (by simp),
      if_neg (h f mem_cons_self)]

theorem FileTree.get?_putFiles_last {before after : List (String × Content)}
    (h : x ∉ after.map Prod.fst) :
    (t.putFiles key (before ++ (x, c) :: after)).get? (key ++ [x]) = some (.file c) := by
  rw [FileTree.putFiles_append, FileTree.putFiles, foldl_cons, ← FileTree.putFiles,
    FileTree.get?_putFiles_of_ne, FileTree.get?_put (by simp), if_pos rfl]
  rintro f hf he
  have hx : x = f.1 := by simpa using he
  exact h (hx ▸ mem_map_of_mem hf)

theorem Work.run_write (h : AreNames (key ++ [x])) (ho : t.IsOpen key) (path : Path) (c : Content) :
    (Work.change path (·.write (ofNames (key ++ [x])) c)).run t =
      (.ok (), t.put (key ++ [x]) (.file c)) :=
  Work.run_change_ok (FileTree.write_ofNames h (ho.leads x) (ho.files x) c)

theorem run_writeModules {sources : Path} {modules : List (BuiltModule × String)}
    (h : ∀ m ∈ modules, AreNames (key ++ [outputName sources m.1.file]) ∧
      m.1.output = ofNames (key ++ [outputName sources m.1.file])) (ho : t.IsOpen key) :
    (modules.forM fun m => Work.writeText m.1.output m.2).run t =
      (.ok (), t.putFiles key (modules.map fun m => (outputName sources m.1.file, .text m.2))) := by
  induction modules generalizing t with
  | nil => rfl
  | cons m modules ih =>
    obtain ⟨hn, hp⟩ := h m mem_cons_self
    change (Work.writeText m.1.output m.2 >>= fun _ =>
      modules.forM fun m => Work.writeText m.1.output m.2).run t = _
    rw [Work.writeText, hp, Work.run_bind_ok (Work.run_write hn ho _ _)]
    exact ih (fun m hm => h m (mem_cons_of_mem _ hm)) (ho.put _ _)

end Writing

def SupportChoice.content? (files : FileTree) : SupportChoice → Option Content
  | .copied source => (files.contents source).toOption
  | .bundled => some (.text supportText)
  | .omitted => none

def Plan.moduleFiles (plan : Plan) (sources : Path) : List (String × Content) :=
  plan.modules.map fun m => (outputName sources m.1.file, .text m.2)

def Plan.written (plan : Plan) (files : FileTree) (sources : Path) : List (String × Content) :=
  plan.moduleFiles sources ++ (plan.support.content? files).toList.map (supportFile, ·)

/-- A plan for the directory `key`: its files go into it, and the project's own support module is a
file that is not in it. -/
structure Plan.IsFor (plan : Plan) (files : FileTree) (sources : Path) (key : List String) :
    Prop where
  names : AreNames key
  nonempty : key ≠ []
  output : plan.output = ofNames key
  modules : ∀ m ∈ plan.modules, AreNames (key ++ [outputName sources m.1.file]) ∧
    m.1.output = ofNames (key ++ [outputName sources m.1.file])
  support : ∀ source, plan.support = .copied source → ∃ dir, AreNames (dir ++ [supportFile]) ∧
    source = ofNames (dir ++ [supportFile]) ∧ files.isFile source ∧ ¬ key <+: dir

section Plans

variable {plan : Plan} {t u : FileTree} {sources : Path} {key : List String}

theorem isStep_supportFile : (Component.name supportFile).IsStep :=
  isStep_name_iff.2 (by decide)

theorem run_writeSupport (h : plan.IsFor t sources key) (ho : u.IsOpen key)
    (hc : ∀ source, plan.support = .copied source → ∃ c, u.contents source = .ok c) :
    plan.writeSupport.run u =
      (.ok ((plan.support.content? u).map fun _ => ofNames (key ++ [supportFile])),
        u.putFiles key ((plan.support.content? u).toList.map (supportFile, ·))) := by
  have hnames := h.names.concat isStep_supportFile
  rw [Plan.writeSupport, h.output, Path.join_ofNames h.names isStep_supportFile]
  cases hs : plan.support with
  | copied source =>
    obtain ⟨c, hc⟩ := hc source hs
    have hlook : (Work.look fun files => (files.contents source).mapError
        (Problem.ofFile · source.text)).run u = (.ok c, u) := by
      rw [Work.run_look, hc]
      rfl
    simp only [SupportChoice.content?, hc]
    rw [Work.run_bind_ok hlook, Work.run_bind_ok (Work.run_write hnames ho source c)]
    rfl
  | bundled =>
    rw [Work.writeText, Work.run_bind_ok (Work.run_write hnames ho _ _)]
    rfl
  | omitted => rfl

/-- The project's own support module stays as it was when the output directory is emptied and
written to. -/
theorem Plan.IsFor.support_contents (h : plan.IsFor t sources key) (hk : t.KeepsOutside key u)
    (hf : ∀ c, t.Leads key → t.get? key ≠ some (.file c)) {source : Path}
    (hs : plan.support = .copied source) (files : List (String × Content)) :
    (u.putFiles key files).contents source = t.contents source := by
  obtain ⟨dir, hnames, rfl, hfile, hdir⟩ := h.support source hs
  obtain ⟨hl, c, hc⟩ := (FileTree.isFile_ofNames hnames).1 hfile
  have hout : ¬ key <+: dir ++ [supportFile] := by
    intro hp
    rcases prefix_concat_iff.1 hp with rfl | hp
    · exact hf c hl hc
    · exact hdir hp
  have hother : ∀ k, k <+: dir ++ [supportFile] → (u.putFiles key files).get? k = u.get? k := by
    intro k hk'
    refine FileTree.get?_putFiles_of_ne fun f _ he => ?_
    subst he
    exact hout ((prefix_append _ _).trans hk')
  have hentry : (u.putFiles key files).entry (ofNames (dir ++ [supportFile])) = .ok (.file c) := by
    refine (FileTree.entry_ofNames hnames).2 ⟨fun k hk' hne => ?_, ?_⟩
    · rw [hother k hk']
      exact hk.leads hl hout k hk' hne
    · rw [hother _ (prefix_refl _), hk _ hl (by simp [hc]) hout, hc]
  rw [FileTree.contents, FileTree.contents, hentry, (FileTree.entry_ofNames hnames).2 ⟨hl, hc⟩]

section Reset

variable (h : plan.IsFor t sources key)
  (hreset : (Work.resetDirectory plan.output).run t = (.ok (), u)) (hfresh : u.IsFresh key)
  (hkeeps : t.KeepsOutside key u) (hfile : ∀ c, t.Leads key → t.get? key ≠ some (.file c))

include h hreset hfresh hkeeps hfile

theorem carryOut_of_reset
    (hread : ∀ source, plan.support = .copied source → ∃ c, t.contents source = .ok c) :
    plan.carryOut.run t =
      (.ok ⟨plan.output, plan.modules.map Prod.fst,
        (plan.support.content? t).map fun _ => ofNames (key ++ [supportFile])⟩,
        u.putFiles key (plan.written t sources)) := by
  let v := u.putFiles key (plan.moduleFiles sources)
  have hmodules : (plan.modules.forM fun m => Work.writeText m.1.output m.2).run u = (.ok (), v) :=
    run_writeModules h.modules hfresh.isOpen
  have hsame : plan.support.content? v = plan.support.content? t := by
    cases hs : plan.support with
    | copied source => simp only [SupportChoice.content?, v, h.support_contents hkeeps hfile hs]
    | bundled => rfl
    | omitted => rfl
  have hopen : v.IsOpen key := hfresh.isOpen.putFiles _
  have hsupport := run_writeSupport h hopen fun source hs => by
    rw [h.support_contents hkeeps hfile hs]
    exact hread source hs
  rw [hsame] at hsupport
  rw [Plan.carryOut, Work.run_bind_ok hreset, Work.run_bind_ok hmodules,
    Work.run_bind_ok hsupport, Plan.written, FileTree.putFiles_append]
  rfl

/-- A support module that may not be read is found out last. -/
theorem carryOut_of_sealed {source : Path} {cause : Cause} (hs : plan.support = .copied source)
    (hc : t.contents source = .error cause) :
    plan.carryOut.run t =
      (.error (.ofFile cause source.text), u.putFiles key (plan.moduleFiles sources)) := by
  have hlook : plan.writeSupport.run (u.putFiles key (plan.moduleFiles sources)) =
      (.error (.ofFile cause source.text), u.putFiles key (plan.moduleFiles sources)) := by
    rw [Plan.writeSupport, hs]
    refine Work.run_bind_error ?_ _
    rw [Work.run_look, h.support_contents hkeeps hfile hs, hc]
    rfl
  rw [Plan.carryOut, Work.run_bind_ok hreset,
    Work.run_bind_ok (run_writeModules h.modules hfresh.isOpen)]
  exact Work.run_bind_error hlook _

end Reset

/-- What keeps a plan from being carried out though all its modules were compiled. -/
inductive Plan.Stopped (plan : Plan) (t : FileTree) (key : List String) : Problem → FileTree → Prop
  | unchanged (cause : Cause) : Stopped plan t key (.ofFile cause plan.output.text) t
  | long (cause : Cause) (u : FileTree) (h : ∃ x ∈ key, FileTree.isLong x = true) :
    Stopped plan t key (.ofFile cause plan.output.text) u
  | sealed {source : Path} {cause : Cause} (u : FileTree) (hs : plan.support = .copied source)
    (hc : t.contents source = .error cause) :
    Stopped plan t key (.ofFile cause source.text) u

theorem carryOut_cases (h : plan.IsFor t sources key) :
    (∃ u, u.IsFresh key ∧ t.KeepsOutside key u ∧
      (Work.resetDirectory plan.output).run t = (.ok (), u) ∧
      (∀ source, plan.support = .copied source → ∃ c, t.contents source = .ok c) ∧
      plan.carryOut.run t =
        (.ok ⟨plan.output, plan.modules.map Prod.fst,
          (plan.support.content? t).map fun _ => ofNames (key ++ [supportFile])⟩,
          u.putFiles key (plan.written t sources))) ∨
    ∃ e u, plan.carryOut.run t = (.error e, u) ∧ plan.Stopped t key e u := by
  have hrun := resetDirectory_cases h.names h.nonempty t
  rw [← h.output] at hrun
  rcases hrun with ⟨u, hreset, hfresh, hkeeps, hfile⟩ | ⟨cause, u, he, hu⟩
  · by_cases hread : ∀ source, plan.support = .copied source → ∃ c, t.contents source = .ok c
    · exact .inl ⟨u, hfresh, hkeeps, hreset, hread,
        carryOut_of_reset h hreset hfresh hkeeps hfile hread⟩
    · simp only [not_forall, not_exists] at hread
      obtain ⟨source, hs, hc⟩ := hread
      cases hcontents : t.contents source with
      | ok c => exact absurd hcontents (hc c)
      | error cause =>
        exact .inr ⟨_, _, carryOut_of_sealed h hreset hfresh hkeeps hfile hs hcontents,
          .sealed _ hs hcontents⟩
  · refine .inr ⟨_, u, Work.run_bind_error he _, ?_⟩
    rcases hu with rfl | hlong
    · exact .unchanged cause
    · exact .long cause u hlong

end Plans

end WidgetCompiler
