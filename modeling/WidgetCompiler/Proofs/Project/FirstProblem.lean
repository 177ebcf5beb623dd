import WidgetCompiler.Proofs.Linking.Imported
import WidgetCompiler.Proofs.ScriptProblems
import WidgetCompiler.Proofs.Widget.Containing

namespace WidgetCompiler

section

abbrev Unfiled {α : Type} (r : Except Problem α) : Prop :=
  Fails (·.file = none) r

abbrev UnfiledRun {σ α : Type} (x : StateT σ (Except Problem) α) : Prop :=
  FailsRun (·.file = none) x

theorem Owns.unfiled {α : Type} {r : Except Problem α} (hr : Owns r) : Unfiled r :=
  hr.mono fun _ => Problem.IsOwn.file

namespace Unfiled

variable {α : Type} {r : Except Problem α} {e : Problem}

theorem shifted (hr : Unfiled r) (offset : Nat) : Unfiled (shifted offset r) := by
  cases r with
  | ok a => exact .ok a
  | error e =>
    rintro _ ⟨⟩
    exact hr e rfl

theorem named (hr : Unfiled r) {file : String} (he : r.mapError (·.inFile file) = .error e) :
    e.file = some file := by
  cases r with
  | ok a => cases he
  | error e' =>
    cases he
    simp [Problem.inFile, hr e' rfl]

end Unfiled

namespace Markup

theorem unfiled_failAt {α : Type} (cause : Cause) (span : Span) :
    UnfiledRun (failAt cause span : Reader α) :=
  fun _ => .problem rfl

theorem unfiled_failFrom {α : Type} (cause : Cause) (start : Nat) :
    UnfiledRun (failFrom cause start : Reader α) :=
  fun _ => .problem rfl

theorem unfiled_pos : UnfiledRun pos :=
  fun _ => .ok _

theorem unfiled_rest : UnfiledRun rest :=
  fun _ => .ok _

theorem unfiled_atEnd : UnfiledRun atEnd :=
  fun _ => .ok _

theorem unfiled_looksAt (s : String) : UnfiledRun (looksAt s) :=
  fun _ => .ok _

theorem unfiled_take (n : Nat) : UnfiledRun (take n) :=
  fun _ => .ok _

theorem unfiled_skip (n : Nat) : UnfiledRun (discard (take n)) :=
  fun _ => .ok _

theorem unfiled_takeWhile (p : Char → Bool) : UnfiledRun (takeWhile p) :=
  fun _ => .ok _

theorem unfiled_skipBlank : UnfiledRun skipBlank :=
  fun _ => .ok _

theorem unfiled_eat (s : String) : UnfiledRun (eat s) :=
  (unfiled_looksAt s).bind fun _ => .ite ((unfiled_skip _).map _) (.pure _)

theorem unfiled_expect (s what : String) : UnfiledRun (expect s what) :=
  (unfiled_eat s).bind fun _ =>
    .ite (unfiled_pos.bind fun _ => unfiled_failFrom _ _) (.pure _)

theorem unfiled_braced : UnfiledRun braced := by
  refine FailsRun.get.bind fun r => ?_
  split
  · exact unfiled_failFrom _ _
  · exact (FailsRun.set _).map _

theorem unfiled_valueParts (quote : Option Char) (fuel : Nat) :
    UnfiledRun (valueParts quote fuel) := by
  induction fuel with
  | zero => exact .pure _
  | succ n ih =>
    refine unfiled_pos.bind fun start => unfiled_rest.bind fun cs =>
      (unfiled_take _).bind fun text => unfiled_atEnd.bind fun _ =>
      .ite (unfiled_failFrom _ _) (unfiled_rest.bind fun cs => .ite ?_ ?_)
    · exact .ite ((unfiled_skip 1).map _) (.pure _)
    · exact unfiled_braced.bind fun e => ih.map _

theorem unfiled_readQuote : UnfiledRun readQuote := by
  refine unfiled_rest.bind fun cs => ?_
  split
  · exact .ite ((unfiled_skip 1).map _) (.pure _)
  · exact .pure _

theorem unfiled_attributeValue : UnfiledRun attributeValue :=
  (unfiled_looksAt _).bind fun _ => .ite (unfiled_braced.map _)
    (unfiled_readQuote.bind fun _ => unfiled_rest.bind fun _ =>
      (unfiled_valueParts _ _).map _)

theorem unfiled_readAttribute : UnfiledRun readAttribute := by
  refine unfiled_pos.bind fun start => (unfiled_looksAt _).bind fun _ => .ite ?_ ?_
  · exact unfiled_braced.bind fun e =>
      .ite (unfiled_failFrom _ _) (.gets _)
  · refine (unfiled_takeWhile _).bind fun name => .ite (unfiled_failFrom _ _) ?_
    refine unfiled_skipBlank.bind fun _ => (unfiled_eat _).bind fun _ => .ite ?_ ?_
    · exact unfiled_skipBlank.bind fun _ => unfiled_attributeValue.bind fun _ =>
        .gets _
    · exact (FailsRun.pure _).bind fun _ => .gets _

theorem unfiled_attributes (fuel : Nat) : UnfiledRun (attributes fuel) := by
  induction fuel with
  | zero => exact .pure _
  | succ n ih =>
    refine unfiled_skipBlank.bind fun _ => unfiled_atEnd.bind fun _ =>
      (unfiled_looksAt _).bind fun _ => (unfiled_looksAt _).bind fun _ => .ite (.pure _) ?_
    exact unfiled_readAttribute.bind fun _ => ih.map _

theorem unfiled_textNode : UnfiledRun textNode :=
  unfiled_pos.bind fun _ => (unfiled_takeWhile _).bind fun _ => .gets _

theorem unfiled_commentNode : UnfiledRun commentNode := by
  refine unfiled_pos.bind fun start => (unfiled_skip 4).bind fun _ => unfiled_rest.bind fun cs => ?_
  split
  · exact unfiled_failAt _ _
  · exact (unfiled_skip _).bind fun _ => .gets _

theorem unfiled_interpolation : UnfiledRun interpolation :=
  unfiled_pos.bind fun _ => unfiled_braced.bind fun _ =>
    .ite (unfiled_failFrom _ _) (.gets _)

theorem unfiled_specialTag : UnfiledRun specialTag := by
  refine unfiled_pos.bind fun start => unfiled_braced.bind fun s => ?_
  dsimp only
  split
  · exact .ite (.gets _) (unfiled_failFrom _ _)
  · exact unfiled_failFrom _ _

theorem unfiled_rawBlock (start : Nat) (name : String) : UnfiledRun (rawBlock start name) := by
  refine unfiled_rest.bind fun _ => (unfiled_attributes _).bind fun as =>
    (unfiled_expect _ _).bind fun _ => unfiled_pos.bind fun _ => unfiled_rest.bind fun cs => ?_
  split
  · exact unfiled_failAt _ _
  · exact (unfiled_skip _).bind fun _ => FailsRun.get.bind fun r => .ite (.pure _)
      (.ite (unfiled_failAt _ _) (.ite (unfiled_failAt _ _) (.set _)))

theorem unfiled_elementNode (name : String) (attributes : List Attribute) (children : List Node)
    (span : Span) : UnfiledRun (elementNode name attributes children span) :=
  .ite (.pure _) (.ite (unfiled_failAt _ _) (.pure _))

theorem unfiled_closingTag (start : Nat) (name : String) : UnfiledRun (closingTag start name) :=
  (unfiled_eat _).bind fun _ =>
    .ite (unfiled_skipBlank.bind fun _ => unfiled_expect _ _)
      (unfiled_atEnd.bind fun _ => .ite (unfiled_failAt _ _) (unfiled_failAt _ _))

theorem unfiled_blockClose (keyword : String) (start : Nat) :
    UnfiledRun (blockClose keyword start) :=
  (unfiled_eat _).bind fun _ =>
    .ite (unfiled_atEnd.bind fun _ =>
      .ite (unfiled_failAt _ _) (unfiled_rest.bind fun _ => unfiled_failAt _ _)) (.pure _)

section Nested

variable {nodes : Reader (List Node)}

theorem unfiled_element (hn : UnfiledRun nodes) : UnfiledRun (element nodes) := by
  refine unfiled_pos.bind fun start => (unfiled_skip 1).bind fun _ =>
    (unfiled_takeWhile _).bind fun name => .ite (unfiled_failFrom _ _) (.ite ?_ ?_)
  · exact (unfiled_rawBlock _ _).map _
  · refine unfiled_rest.bind fun _ => (unfiled_attributes _).bind fun as =>
      (unfiled_eat _).bind fun _ => .ite ?_ ?_
    · exact FailsRun.get.bind fun _ => (unfiled_elementNode _ _ _ _).map _
    · exact (unfiled_expect _ _).bind fun _ => hn.bind fun _ =>
        (unfiled_closingTag _ _).bind fun _ => FailsRun.get.bind fun _ =>
        (unfiled_elementNode _ _ _ _).map _

theorem unfiled_condition (hn : UnfiledRun nodes) (fuel start : Nat) (test : Embedded)
    (isElseIf : Bool) : UnfiledRun (condition nodes fuel start test isElseIf) := by
  induction fuel generalizing start test isElseIf with
  | zero => exact unfiled_failFrom _ _
  | succ n ih =>
    refine .ite (unfiled_failFrom _ _) (hn.bind fun _ => unfiled_pos.bind fun next =>
      (unfiled_looksAt _).bind fun _ => .ite (unfiled_braced.bind fun header => ?_) ?_)
    · split
      · exact (ih _ _ _).bind fun _ => .gets _
      · exact unfiled_failFrom _ _
      · exact hn.bind fun _ => (unfiled_blockClose _ _).bind fun _ =>
          .gets _
    · exact (unfiled_blockClose _ _).bind fun _ => .gets _

theorem unfiled_fallbackNodes (hn : UnfiledRun nodes) : UnfiledRun (fallbackNodes nodes) :=
  (unfiled_looksAt _).bind fun _ =>
    .ite (unfiled_pos.bind fun _ => unfiled_braced.bind fun _ =>
      .ite (unfiled_failFrom _ _) (hn.map _)) (.pure _)

theorem unfiled_eachBlock (hn : UnfiledRun nodes) (start : Nat) (args : Stretch) :
    UnfiledRun (eachBlock nodes start args) := by
  unfold eachBlock
  split
  · exact unfiled_failFrom _ _
  · exact hn.bind fun _ => (unfiled_fallbackNodes hn).bind fun _ =>
      (unfiled_blockClose _ _).bind fun _ => .gets _

theorem unfiled_block (hn : UnfiledRun nodes) : UnfiledRun (block nodes) := by
  refine unfiled_pos.bind fun start => unfiled_braced.bind fun header => ?_
  dsimp only
  split
  · exact unfiled_rest.bind fun _ => unfiled_condition hn _ _ _ _
  · exact unfiled_eachBlock hn _ _
  · exact unfiled_failFrom _ _

theorem unfiled_node (hn : UnfiledRun nodes) : UnfiledRun (node nodes) :=
  (unfiled_looksAt _).bind fun _ => .ite (unfiled_commentNode.map _) <|
  (unfiled_looksAt _).bind fun _ => .ite ((unfiled_element hn).map _) <|
  (unfiled_looksAt _).bind fun _ => .ite ((unfiled_block hn).map _) <|
  (unfiled_looksAt _).bind fun _ => .ite (unfiled_specialTag.map _) <|
  (unfiled_looksAt _).bind fun _ => .ite (unfiled_interpolation.map _) <|
  unfiled_textNode.map _

end Nested

theorem unfiled_nodes (fuel : Nat) : UnfiledRun (nodes fuel) := by
  induction fuel with
  | zero => exact .pure _
  | succ n ih =>
    exact (show UnfiledRun atNodesEnd from fun _ => .ok _).bind fun _ =>
      .ite (.pure _) ((unfiled_node ih).bind fun _ => ih.map _)

theorem unfiled_document : UnfiledRun document :=
  unfiled_rest.bind fun _ => (unfiled_nodes _).bind fun _ => unfiled_atEnd.bind fun _ =>
    .ite (.gets _)
      (unfiled_rest.bind fun _ => unfiled_pos.bind fun _ => unfiled_failFrom _ _)

theorem Document.unfiled_parse (source : String) : Unfiled (Document.parse source) :=
  (unfiled_document _).map _

end Markup

theorem Widget.Built.unfiled_ofNodes (cells : List String) (nodes : List Markup.Node) :
    Unfiled (Built.ofNodes cells nodes) :=
  ((buildNodes_lowers cells nodes .empty).mono fun _ => And.left).map _

theorem unfiled_resolveAll (files : FileTree) (importer : Path) (ds : List Dependency) :
    Unfiled (resolveAll files importer ds) := by
  refine .mapM (fun d => ?_) ds
  unfold Dependency.resolve
  repeat' split
  all_goals first | exact .ok _ | exact .problem rfl

theorem unfiled_moduleObject (ctx : Context) (file : Path) (source : String) (span : Span) :
    Unfiled (moduleObject ctx file source span) := by
  unfold moduleObject
  repeat' split
  all_goals first | exact .ok _ | exact .problem rfl

theorem Unbundled.unfiled_addStmt (ctx : Context) (file : Path) (u : Unbundled) (s : Script.Stmt) :
    Unfiled (u.addStmt ctx file s) := by
  unfold Unbundled.addStmt
  split
  · exact .ok _
  · split
    · exact .ok _
    · exact .ok _
  · split
    · exact .ok _
    · split
      · exact (unfiled_moduleObject _ _ _ _).bind fun _ => .ok _
      · exact .ok _
  · refine (unfiled_moduleObject _ _ _ _).bind fun _ => ?_
    split
    · exact .ok _
    · exact .problem rfl
  · exact .ok _
  · exact .ok _
  · exact .ok _

theorem unfiled_assembleModule (ctx : Context) (file : Path) (source : String) :
    Unfiled (assembleModule ctx file source) := by
  refine (Script.Program.owns_parse _ _ _).unfiled.bind fun p =>
    (p.owns_survey _).unfiled.bind fun sv =>
    (unfiled_resolveAll _ _ _).bind fun ds =>
    (Fails.foldlM (Unbundled.unfiled_addStmt ctx file) _ _).bind fun u => ?_
  dsimp only
  split
  · exact (Script.Program.owns_untyped _ _).unfiled.bind fun q =>
      (q.owns_track _).unfiled.bind fun _ =>
      (owns_importBindings _ _ _).unfiled.bind fun _ => .ok _
  · exact (Script.Program.owns_track _ _).unfiled.bind fun _ =>
      (owns_importBindings _ _ _).unfiled.bind fun _ => .ok _

theorem Instance.unfiled_compile (ctx : Context) (file : Path) (b : Markup.ScriptBlock) :
    Unfiled (Instance.compile ctx file b) := by
  refine (Script.Program.owns_parse _ _ _).unfiled.bind fun p =>
    ((p.owns_survey _).unfiled.shifted _).bind fun sv =>
    ((unfiled_resolveAll _ _ _).shifted _).bind fun ds =>
    Fails.bind ?_ fun q => ((q.owns_track _).unfiled.shifted _).bind fun _ => .ok _
  unfold Script.Program.factory
  dsimp only
  split
  · exact (Script.Program.owns_untyped _ _).unfiled
  · exact .ok _

theorem unfiled_assembleComponent (ctx : Context) (file : Path) (source : String) :
    Unfiled (assembleComponent ctx file source) := by
  refine Fails.bind ?_ fun a => (owns_importBindings _ _ _).unfiled.bind fun _ => .ok _
  refine (Markup.Document.unfiled_parse source).bind fun doc => ?_
  split
  · exact (Instance.unfiled_compile ctx file _).bind fun _ =>
      (Widget.Built.unfiled_ofNodes _ _).bind fun _ => .ok _
  · exact (Widget.Built.unfiled_ofNodes _ _).bind fun _ => .ok _

namespace Source

theorem unfiled_exports (s : Source) : Unfiled s.exports := by
  unfold Source.exports
  split
  · refine (Markup.Document.unfiled_parse _).bind fun doc => ?_
    split
    · exact .ok _
    · exact (Script.Program.owns_parse _ _ _).unfiled.bind fun _ => .ok _
  · exact (Script.Program.owns_parse _ _ _).unfiled.bind fun _ => .ok _

theorem file_of_compile {ctx : Context} {s : Source} {e : Problem} (h : s.compile ctx = .error e) :
    e.file = some s.file.path.text := by
  unfold Source.compile at h
  split at h
  · exact (unfiled_assembleComponent ctx _ _).named h
  · exact (unfiled_assembleModule ctx _ _).named h
  · exact (unfiled_assembleModule ctx _ _).named h

end Source

end

open List

/-- The passes over all source files, one after the other. -/
inductive Stage
  | reading
  | linking
  | compiling
deriving Repr, DecidableEq

def Stage.rank : Stage → Nat
  | .reading => 0
  | .linking => 1
  | .compiling => 2

structure Failure where
  file : SourceFile
  stage : Stage
  problem : Problem
deriving Repr, DecidableEq

def Source.linked (files : FileTree) (s : Source) : Except Problem (List String × List Edge) := do
  let (exports, start) ← s.exports.mapError (·.inFile s.file.path.text)
  let edges ← exports.reexports.mapM (edge files s.file.path start)
  return (exports.cells, edges.filterMap id)

def Context.failure? (ctx : Context) (file : SourceFile) : Option Failure :=
  match Source.load ctx.files file with
  | .error e => some ⟨file, .reading, e⟩
  | .ok s =>
    match s.linked ctx.files with
    | .error e => some ⟨file, .linking, e⟩
    | .ok _ => (fault? (s.compile ctx)).map (⟨file, .compiling, ·⟩)

def Context.failures (ctx : Context) (found : List SourceFile) : List Failure :=
  found.filterMap ctx.failure?

def ofStage (st : Stage) (l : List Failure) : List Failure :=
  l.filter (·.stage = st)

def byStage (l : List Failure) : List Failure :=
  ofStage .reading l ++ (ofStage .linking l ++ ofStage .compiling l)

section Failures

variable {files : FileTree} {ctx : Context} {file : SourceFile} {found : List SourceFile}
  {f : Failure} {s : Source} {e : Problem} {l : List Failure}

theorem link_eq (files : FileTree) (seen : CellTable × List Edge) (s : Source) :
    s.link files seen =
      (s.linked files).map fun x => (seen.1.set s.file.path x.1, seen.2 ++ x.2) := by
  simp only [Source.link, Source.linked]
  cases s.exports.mapError (·.inFile s.file.path.text) with
  | error e => rfl
  | ok x =>
    obtain ⟨exports, start⟩ := x
    simp only [bind, Except.bind]
    cases exports.reexports.mapM (Source.edge files s.file.path start) <;> rfl

theorem file_of_load (h : Source.load files file = .error e) : e.file = some file.path.text := by
  unfold Source.load at h
  cases hr : files.read file.path with
  | ok text =>
    rw [hr] at h
    cases h
  | error cause =>
    rw [hr] at h
    cases h
    rfl

theorem file_of_linked (h : s.linked files = .error e) : e.file = some s.file.path.text := by
  unfold Source.linked at h
  cases hx : s.exports.mapError (·.inFile s.file.path.text) with
  | error e' =>
    rw [hx] at h
    cases h
    exact s.unfiled_exports.named hx
  | ok x =>
    obtain ⟨exports, start⟩ := x
    rw [hx] at h
    simp only [bind, Except.bind] at h
    cases he : exports.reexports.mapM (Source.edge files s.file.path start) with
    | ok edges =>
      rw [he] at h
      cases h
    | error e' =>
      rw [he] at h
      cases h
      rw [← fault?_eq_some, fault?_mapM] at he
      obtain ⟨r, -, hr⟩ := exists_of_findSome?_eq_some he
      replace hr := fault?_eq_some.1 hr
      unfold Source.edge at hr
      split at hr
      · cases hr
      · split at hr
        · cases hr
          rfl
        · cases hr

theorem failure?_named (h : ctx.failure? file = some f) :
    f.file = file ∧ f.problem.file = some file.path.text := by
  unfold Context.failure? at h
  split at h
  · rename_i e he
    cases h
    exact ⟨rfl, file_of_load he⟩
  · rename_i s hs
    obtain rfl := load_file hs
    split at h
    · rename_i e he
      cases h
      exact ⟨rfl, file_of_linked he⟩
    · obtain ⟨e, he, rfl⟩ := Option.map_eq_some_iff.1 h
      exact ⟨rfl, Source.file_of_compile (fault?_eq_some.1 he)⟩

theorem mem_failures : f ∈ ctx.failures found ↔ ∃ file ∈ found, ctx.failure? file = some f :=
  mem_filterMap

theorem mem_ofStage {st : Stage} : f ∈ ofStage st l ↔ f ∈ l ∧ f.stage = st := by
  simp [ofStage]

theorem mem_byStage : f ∈ byStage l ↔ f ∈ l := by
  simp only [byStage, mem_append, mem_ofStage]
  cases f.stage <;> simp

theorem byStage_sorted (l : List Failure) :
    (byStage l).Pairwise fun a b => a.stage.rank ≤ b.stage.rank := by
  have hsame (st : Stage) : (ofStage st l).Pairwise fun a b => a.stage.rank ≤ b.stage.rank :=
    pairwise_of_forall_mem_list fun a ha b hb => by
      rw [(mem_ofStage.1 ha).2, (mem_ofStage.1 hb).2]
  refine pairwise_append.2 ⟨hsame _, pairwise_append.2 ⟨hsame _, hsame _, ?_⟩, ?_⟩
  · intro a ha b hb
    rw [(mem_ofStage.1 ha).2, (mem_ofStage.1 hb).2]
    decide
  · intro a ha b _
    rw [(mem_ofStage.1 ha).2]
    exact Nat.zero_le _

theorem rank_le_of_head (h : (byStage l).head? = some f) :
    ∀ g ∈ l, f.stage.rank ≤ g.stage.rank := by
  obtain ⟨rest, hrest⟩ := head?_eq_some_iff.1 h
  have hsorted := byStage_sorted l
  intro g hg
  rw [← mem_byStage, hrest] at hg
  rw [hrest] at hsorted
  rcases mem_cons.1 hg with rfl | hg
  · exact le_rfl
  · exact rel_of_pairwise_cons hsorted hg

/-- The first failure comes first by stages if none is of an earlier stage. -/
theorem head_byStage (h : ∀ g ∈ l, f.stage.rank ≤ g.stage.rank) :
    (byStage (f :: l)).head? = some f := by
  have hnone {st : Stage} (hst : st.rank < f.stage.rank) : ofStage st (f :: l) = [] := by
    rw [ofStage, filter_eq_nil_iff]
    intro g hg hgs
    obtain rfl : g.stage = st := of_decide_eq_true hgs
    rcases mem_cons.1 hg with rfl | hg
    · exact lt_irrefl _ hst
    · exact absurd (h g hg) (Nat.not_le.2 hst)
  have hfirst : (ofStage f.stage (f :: l)).head? = some f := by
    simp [ofStage]
  unfold byStage
  cases hs : f.stage with
  | reading =>
    rw [hs] at hfirst
    rw [head?_append, hfirst]
    rfl
  | linking =>
    rw [hs] at hfirst hnone
    rw [hnone (by decide), nil_append, head?_append, hfirst]
    rfl
  | compiling =>
    rw [hs] at hfirst hnone
    rw [hnone (by decide), hnone (by decide), nil_append, nil_append, hfirst]

theorem head_ofStage (st : Stage) (found : List SourceFile) :
    (ofStage st (ctx.failures found)).head?.map Failure.problem =
      found.findSome? fun file =>
        ((ctx.failure? file).filter (·.stage = st)).map Failure.problem := by
  rw [ofStage, Context.failures, filter_filterMap, head?_filterMap]
  induction found with
  | nil => rfl
  | cons file found ih =>
    simp only [findSome?_cons]
    cases (ctx.failure? file).filter (·.stage = st) with
    | none => exact ih
    | some f => rfl

theorem reading_problem (file : SourceFile) :
    ((ctx.failure? file).filter (·.stage = .reading)).map Failure.problem =
      fault? (Source.load ctx.files file) := by
  unfold Context.failure?
  cases Source.load ctx.files file with
  | error e => rfl
  | ok s =>
    dsimp only
    cases s.linked ctx.files with
    | error e => rfl
    | ok x => cases s.compile ctx <;> rfl

theorem linking_problem (ctx : Context) (h : Source.load ctx.files file = .ok s) :
    ((ctx.failure? file).filter (·.stage = .linking)).map Failure.problem =
      fault? (s.linked ctx.files) := by
  unfold Context.failure?
  rw [h]
  dsimp only
  cases s.linked ctx.files with
  | error e => rfl
  | ok x => cases s.compile ctx <;> rfl

theorem compiling_problem (ctx : Context) (h : Source.load ctx.files file = .ok s)
    (hl : fault? (s.linked ctx.files) = none) :
    ((ctx.failure? file).filter (·.stage = .compiling)).map Failure.problem =
      fault? (s.compile ctx) := by
  obtain ⟨x, hx⟩ := fault?_eq_none.1 hl
  unfold Context.failure?
  rw [h]
  dsimp only
  rw [hx]
  cases s.compile ctx <;> rfl

/-- A search through files and one through what was read of them, with the same answers. -/
theorem findSome?_loaded {α : Type} {g : SourceFile → Option α} {k : Source → Option α}
    {sources : List Source}
    (hs : List.Forall₂ (fun file s => Source.load files file = .ok s) found sources)
    (h : ∀ file s, Source.load files file = .ok s → s ∈ sources → g file = k s) :
    found.findSome? g = sources.findSome? k := by
  induction hs with
  | nil => rfl
  | cons hload _ ih =>
    rw [findSome?_cons, findSome?_cons, h _ _ hload mem_cons_self,
      ih fun file s hl hs => h file s hl (mem_cons_of_mem _ hs)]

end Failures

section Reports

variable {files files' : FileTree} {settings : Settings} {found : List SourceFile}
  {table : CellTable} {e : Problem}

theorem fault?_bind {α β : Type} (x : Except Problem α) (f : α → Except Problem β) :
    fault? (x >>= f) = (fault? x).or (x.toOption.bind fun a => fault? (f a)) := by
  cases x <;> rfl

theorem fault?_linkSources (files : FileTree) (sources : List Source) :
    fault? (linkSources files sources) = sources.findSome? fun s => fault? (s.linked files) := by
  unfold linkSources
  have hlink (seen : CellTable × List Edge) (s : Source) :
      fault? (s.link files seen) = fault? (s.linked files) := by
    rw [link_eq]
    cases s.linked files <;> rfl
  rw [← fault?_foldlM hlink sources (.empty, [])]
  cases sources.foldlM (Source.link files) (.empty, []) <;> rfl

theorem fault?_ofSources
    (hf : discoverSources files settings.sources (settings.skipped files) = .ok found)
    (ht : ∀ t, settings.cells files = .ok t → table = t) :
    fault? (Plan.ofSources files settings) =
      (byStage (Context.failures ⟨settings.sources, table, files⟩ found)).head?.map
        Failure.problem := by
  let ctx : Context := ⟨settings.sources, table, files⟩
  have hhead : (byStage (ctx.failures found)).head?.map Failure.problem =
      ((ofStage .reading (ctx.failures found)).head?.map Failure.problem).or
        (((ofStage .linking (ctx.failures found)).head?.map Failure.problem).or
          ((ofStage .compiling (ctx.failures found)).head?.map Failure.problem)) := by
    simp only [byStage, head?_append, Option.map_or]
  have hread : (found.findSome? fun file =>
      ((ctx.failure? file).filter (·.stage = .reading)).map Failure.problem) =
      fault? (found.mapM (Source.load files)) := by
    rw [fault?_mapM]
    exact congrArg (List.findSome? · found) (funext reading_problem)
  rw [hhead, head_ofStage, head_ofStage, head_ofStage, hread]
  unfold Plan.ofSources
  dsimp only
  change fault? (discoverSources files settings.sources (settings.skipped files) >>= _) = _
  rw [hf]
  change fault? (found.mapM (Source.load files) >>= _) = _
  rw [fault?_bind]
  cases hl : found.mapM (Source.load files) with
  | error e => rfl
  | ok sources =>
    have hloaded := mapM_forall₂ hl
    have hlink : (found.findSome? fun file =>
        ((ctx.failure? file).filter (·.stage = .linking)).map Failure.problem) =
        fault? (linkSources files sources) := by
      rw [fault?_linkSources]
      exact findSome?_loaded hloaded fun file s h _ => linking_problem ctx h
    change fault? (linkSources files sources >>= _) = _
    rw [hlink, fault?_bind]
    cases hk : linkSources files sources with
    | error e => rfl
    | ok t =>
      have hcells : settings.cells files = .ok t :=
        bind_ok.2 ⟨found, hf, bind_ok.2 ⟨sources, hl, hk⟩⟩
      obtain rfl := ht t hcells
      have hlinked : ∀ s ∈ sources, fault? (s.linked files) = none := by
        rw [← findSome?_eq_none_iff, ← fault?_linkSources, hk]
        rfl
      have hcompile : (found.findSome? fun file =>
          ((ctx.failure? file).filter (·.stage = .compiling)).map Failure.problem) =
          fault? (sources.mapM (Source.compile ctx)) := by
        rw [fault?_mapM]
        exact findSome?_loaded hloaded fun file s h hs =>
          compiling_problem ctx h (hlinked s hs)
      change fault? (sources.mapM (Source.compile ctx) >>= _) = _
      rw [hcompile]
      cases sources.mapM (Source.compile ctx) <;> rfl

theorem file_of_carryOut {plan : Plan} {settings : Settings} {sources output : List String}
    (hof : plan.IsOf files settings) (hn : settings.Names sources output)
    (hu : settings.sources.isUnder settings.output = false)
    (h : plan.carryOut.run files = (.error e, files')) :
    e.file = some settings.output.text ∨
      e.file = some settings.supportPath.text ∧
        files.contents settings.supportPath = .error .accessDenied := by
  rcases carryOut_cases (isFor_of_isOf hof hn hu) with ⟨u, -, -, -, -, hok⟩ | ⟨e', u, he, hstopped⟩
  · rw [hok] at h
    cases h
  · rw [he] at h
    cases h
    cases hstopped with
    | unchanged cause => exact .inl (congrArg (fun p : Path => some p.text) hof.output)
    | long cause u hlong => exact .inl (congrArg (fun p : Path => some p.text) hof.output)
    | sealed u hs hc =>
      obtain ⟨rfl, hfile⟩ := hof.copied hs
      exact .inr ⟨rfl, contents_of_isFile hfile hc ▸ hc⟩

theorem eq_of_path {ctx : Context} {dir : Path} {skip : List String} {f g : Failure}
    (h : discoverSources files dir skip = .ok found) (hf : f ∈ ctx.failures found)
    (hg : g ∈ ctx.failures found) (hpath : f.file.path.text = g.file.path.text) : f = g := by
  obtain ⟨file, hfile, hf⟩ := mem_failures.1 hf
  obtain ⟨file', hfile', hg⟩ := mem_failures.1 hg
  rw [(failure?_named hf).1, (failure?_named hg).1] at hpath
  have hkind := kind_of_found h hfile
  have hkind' := kind_of_found h hfile'
  obtain ⟨⟨text⟩, kind⟩ := file
  obtain ⟨⟨text'⟩, kind'⟩ := file'
  obtain rfl : text = text' := hpath
  obtain rfl : kind = kind' := Option.some.inj (hkind.symm.trans hkind')
  exact Option.some.inj (hf.symm.trans hg)

/-- A failed build reports the first failing file of the earliest stage at which a file fails: the
first failing file just when no other fails at an earlier stage. If no file fails then the output
directory could not be emptied or the project's own support module may not be read. -/
theorem failed_build_blames_first_of_stage {settings : Settings} {files files' : FileTree}
    {found : List SourceFile} {table : CellTable} {e : Problem}
    (hb : files.base.isAbsolute) (hin : settings.StaysInside files.base)
    (hu : (settings.absolute files.base).sources.isUnder
      (settings.absolute files.base).output = false)
    (hf : discoverSources files (settings.absolute files.base).sources
      ((settings.absolute files.base).skipped files) = .ok found)
    (ht : ∀ t, (settings.absolute files.base).cells files = .ok t → table = t)
    (h : (buildProject settings).run files = (.error e, files')) :
    let failures := Context.failures ⟨(settings.absolute files.base).sources, table, files⟩ found
    (failures = [] → e.file = some (settings.absolute files.base).output.text ∨
      e.file = some (settings.absolute files.base).supportPath.text ∧
        files.contents (settings.absolute files.base).supportPath = .error .accessDenied) ∧
      ∀ first rest, failures = first :: rest →
        (∃ blamed, (byStage failures).head? = some blamed ∧ e = blamed.problem ∧
          e.file = some blamed.file.path.text) ∧
        (e.file = some first.file.path.text ↔ ∀ f ∈ rest, first.stage.rank ≤ f.stage.rank) := by
  intro failures
  have hplan : Plan.ofSettings files settings =
      Plan.ofSources files (settings.absolute files.base) := by
    rw [Plan.ofSettings, if_neg (by simp [hu])]
  have hfault := fault?_ofSources hf ht
  rw [← hplan] at hfault
  cases hp : Plan.ofSettings files settings with
  | ok plan =>
    -- every file gets through all stages, and the plan is not carried out
    rw [hp] at hfault
    have hnone : byStage failures = [] := by
      simpa [fault?] using hfault.symm
    have hempty : failures = [] := by
      rw [eq_nil_iff_forall_not_mem] at hnone ⊢
      exact fun f hf => hnone f (mem_byStage.2 hf)
    refine ⟨fun _ => ?_, fun first rest hfirst => by simp [hempty] at hfirst⟩
    have hrun : (buildProject settings).run files = plan.carryOut.run files :=
      Work.run_bind_ok (by rw [Work.run_look, hp]) _
    rw [hrun] at h
    rw [hplan] at hp
    obtain ⟨sources, output, hn⟩ := hin.names hb
    exact file_of_carryOut (isOf_ofSources hp) hn hu h
  | error e' =>
    rw [hp] at hfault
    have hrun : (buildProject settings).run files = (.error e', files) :=
      Work.run_bind_error (by rw [Work.run_look, hp]) _
    rw [hrun] at h
    cases h
    obtain ⟨blamed, hblamed, he⟩ : ∃ blamed, (byStage failures).head? = some blamed ∧
        blamed.problem = e := by
      simpa [fault?] using hfault.symm
    have hmem : blamed ∈ failures :=
      mem_byStage.1 (mem_of_mem_head? hblamed)
    have hnamed : e.file = some blamed.file.path.text := by
      obtain ⟨file, -, hfile⟩ := mem_failures.1 hmem
      obtain ⟨rfl, hname⟩ := failure?_named hfile
      rw [← he, hname]
    refine ⟨fun hempty => by simp [hempty] at hmem, fun first rest hfirst => ⟨?_, ?_, ?_⟩⟩
    · exact ⟨blamed, hblamed, he.symm, hnamed⟩
    · intro hsame f hfr
      have hfm : first ∈ failures := hfirst ▸ mem_cons_self
      have heq : blamed = first :=
        eq_of_path hf hmem hfm (Option.some.inj (hnamed.symm.trans hsame))
      rw [← heq]
      exact rank_le_of_head hblamed f (hfirst ▸ mem_cons_of_mem _ hfr)
    · intro hle
      rw [hfirst, head_byStage hle] at hblamed
      cases hblamed
      exact hnamed

def lostImports : FileTree :=
  smallProject [("a.js", "import './x.js';"), ("b.js", "import './y.js';")]

theorem lost_imports_blame_first :
    ∃ e, ((buildProject {}).run lostImports).1 = .error e ∧ e.file = some "/proj/src/a.js" := by
  let settings := ({} : Settings).absolute lostImports.base
  let table := (settings.cells lostImports).toOption.getD .empty
  obtain ⟨e, files, h⟩ : ∃ e files, (buildProject {}).run lostImports = (.error e, files) :=
    exists_failed (by decide +kernel)
  have hfailures : (discoverSources lostImports settings.sources
      (settings.skipped lostImports)).toOption.map (fun found =>
        (Context.failures ⟨settings.sources, table, lostImports⟩ found).map fun f =>
          (f.file.path.text, f.stage)) =
      some [("/proj/src/a.js", .compiling), ("/proj/src/b.js", .compiling)] := by
    decide +kernel
  obtain ⟨found, hf, hfailures⟩ := Option.map_eq_some_iff.1 hfailures
  obtain ⟨first, rest, hfirst, hb, hrest⟩ := map_eq_cons_iff.1 hfailures
  obtain ⟨second, more, rfl, hc, hnil⟩ := map_eq_cons_iff.1 hrest
  obtain rfl := map_eq_nil_iff.1 hnil
  have hin : ({} : Settings).StaysInside lostImports.base := ⟨by decide +kernel, by decide +kernel⟩
  have htable : ∀ t, settings.cells lostImports = .ok t → table = t := by
    intro t ht
    simp only [table, ht, Except.toOption, Option.getD_some]
  have hblamed := failed_build_blames_first_of_stage (by decide +kernel) hin
    (by decide +kernel) (ok_of_toOption hf) htable h
  refine ⟨e, congrArg Prod.fst h, ((hblamed.2 first _ hfirst).2.2 ?_).trans ?_⟩
  · intro f hf
    obtain rfl := mem_singleton.1 hf
    rw [(Prod.mk.inj hb).2, (Prod.mk.inj hc).2]
  · rw [(Prod.mk.inj hb).1]

def lostBeforeBroken : FileTree :=
  smallProject [("a.js", "import './x.js';"), ("b.js", "let b = ;")]

/-- Both files fail, and the report is for the second. -/
theorem lostBeforeBroken_blames_second :
    (discoverSources lostBeforeBroken ⟨"/proj/src"⟩ []).toOption.map (fun found =>
        (Context.failures ⟨⟨"/proj/src"⟩, .empty, lostBeforeBroken⟩ found).map fun f =>
          (f.file.path.text, f.stage)) =
        some [("/proj/src/a.js", .compiling), ("/proj/src/b.js", .linking)] ∧
      (fault? ((buildProject {}).run lostBeforeBroken).1).map (·.file) =
        some (some "/proj/src/b.js") := by
  decide +kernel

end Reports

end WidgetCompiler
