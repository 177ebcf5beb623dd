import WidgetCompiler.Proofs.Linking.Preamble
import WidgetCompiler.Sources

namespace WidgetCompiler

open List
open Script (Program Stmt ExportSpecifier)

/-- Where a source that is written in a file leads. It stays relative when there is no such file. -/
def originOf (files : FileTree) (file : Path) (source : String) : Origin :=
  match Origin.ofSource source with
  | .relative =>
    match resolveImport files file source with
    | some found => .module found (isComponentFile found)
    | none => .relative
  | origin => origin

def unresolved? (files : FileTree) (file : Path) (source : String) (span : Span) : Option Problem :=
  if originOf files file source = .relative then
    some (.ofCause (.unresolvedImport source file.text) span)
  else none

def Dependency.located (files : FileTree) (file : Path) (d : Dependency) : Dependency :=
  { d with origin := originOf files file d.source }

section Origins

variable {files : FileTree} {file : Path} {source : String} {span : Span}

theorem ofSource_ne_module (source : String) (found : Path) (isComponent : Bool) :
    Origin.ofSource source ≠ .module found isComponent := by
  unfold Origin.ofSource
  split
  · simp
  · split <;> simp

theorem unresolved?_eq_none : unresolved? files file source span = none ↔
    originOf files file source ≠ .relative := by
  simp [unresolved?]

theorem originOf_eq_relative : originOf files file source = .relative ↔
    Origin.ofSource source = .relative ∧ resolveImport files file source = none := by
  unfold originOf
  cases ho : Origin.ofSource source with
  | relative => cases resolveImport files file source <;> simp
  | _ => simp

theorem originOf_eq_module {found : Path} {isComponent : Bool} :
    originOf files file source = .module found isComponent ↔
      Origin.ofSource source = .relative ∧ resolveImport files file source = some found ∧
        isComponent = isComponentFile found := by
  unfold originOf
  cases ho : Origin.ofSource source with
  | relative =>
    cases resolveImport files file source with
    | none => simp
    | some f =>
      simp only [Origin.module.injEq, true_and, Option.some.injEq]
      constructor
      · rintro ⟨rfl, rfl⟩
        exact ⟨rfl, rfl⟩
      · rintro ⟨rfl, rfl⟩
        exact ⟨rfl, rfl⟩
  | module f b => exact absurd ho (ofSource_ne_module source f b)
  | _ => simp

theorem moduleObject_eq (ctx : Context) (file : Path) (source : String) (span : Span) :
    moduleObject ctx file source span =
      match unresolved? ctx.files file source span with
      | some e => .error e
      | none => .ok ((originOf ctx.files file source).object ctx.sources) := by
  unfold moduleObject unresolved? originOf
  cases ho : Origin.ofSource source with
  | toolkit name version => rfl
  | builtin name => rfl
  | module f b => exact absurd ho (ofSource_ne_module source f b)
  | relative => cases resolveImport ctx.files file source <;> rfl

theorem resolve_eq {d : Dependency} (hd : d.origin = .ofSource d.source) :
    d.resolve files file =
      match unresolved? files file d.source d.span with
      | some e => .error e
      | none => .ok (d.located files file) := by
  unfold Dependency.resolve unresolved? Dependency.located originOf
  rw [← hd]
  cases ho : d.origin with
  | relative => cases resolveImport files file d.source <;> rfl
  | module f b => exact absurd (hd.symm.trans ho) (ofSource_ne_module d.source f b)
  | _ =>
    simp only [reduceCtorEq, if_false, Except.ok.injEq]
    rw [← ho]

end Origins

-- Comparing two origins by evaluation would look for files, so only the lemmas above open them.
attribute [irreducible] originOf

inductive Shown
  /-- A name of the module. -/
  | binding (x : String)
  | property (origin : Origin) (x : String)
  | whole (origin : Origin)
deriving Repr, DecidableEq

def Shown.text (sources : Path) : Shown → String
  | .binding x => x
  | .property origin x => origin.object sources ++ "." ++ x
  | .whole origin => origin.object sources

/-- An export: a name and what it shows. -/
structure Exposure where
  name : String
  shown : Shown
deriving Repr, DecidableEq

def Exposure.toExport (sources : Path) (e : Exposure) : Export :=
  ⟨e.name, e.shown.text sources⟩

def expose (es : List Exposure) (e : Exposure) : List Exposure :=
  if es.any (·.name == e.name) then es else es ++ [e]

def exposed (es : List Exposure) : List Exposure :=
  es.foldl expose []

section Exposed

variable {es : List Exposure} {e : Exposure}

theorem expose_toExport (sources : Path) (es : List Exposure) (e : Exposure) :
    (expose es e).map (·.toExport sources) =
      addExport (es.map (·.toExport sources)) (e.toExport sources) := by
  unfold expose addExport
  have hany : (es.map (·.toExport sources)).any (·.name == (e.toExport sources).name) =
      es.any (·.name == e.name) := any_map
  rw [hany]
  split
  · rfl
  · rw [map_append]
    rfl

theorem foldl_expose (sources : Path) (es fs : List Exposure) :
    (fs.foldl expose es).map (·.toExport sources) =
      (fs.map (·.toExport sources)).foldl addExport (es.map (·.toExport sources)) := by
  induction fs generalizing es with
  | nil => rfl
  | cons f fs ih => rw [foldl_cons, ih, expose_toExport, map_cons, foldl_cons]

theorem mem_foldl_expose (fs : List Exposure) :
    e ∈ fs.foldl expose es ↔
      e ∈ es ∨ (∀ f ∈ es, f.name ≠ e.name) ∧ fs.find? (·.name == e.name) = some e := by
  induction fs generalizing es with
  | nil => simp
  | cons f fs ih =>
    rw [foldl_cons, ih, find?_cons, expose]
    by_cases hf : es.any (·.name == f.name)
    · rw [if_pos hf]
      obtain ⟨g, hg, hgf⟩ := any_eq_true.1 hf
      by_cases he : f.name = e.name
      · have hno : ¬ ∀ f ∈ es, f.name ≠ e.name := fun h => h g hg ((beq_iff_eq.1 hgf).trans he)
        simp only [hno, false_and]
      · simp only [beq_false_of_ne he]
    · rw [if_neg hf]
      have hnew : ∀ g ∈ es, g.name ≠ f.name := by simpa using hf
      by_cases he : f.name = e.name
      · rw [he] at hnew
        simp only [mem_append, mem_singleton, beq_iff_eq.2 he, Option.some.injEq]
        constructor
        · rintro ((hm | rfl) | ⟨hno, -⟩)
          · exact .inl hm
          · exact .inr ⟨hnew, rfl⟩
          · exact absurd he (hno f (.inr rfl))
        · rintro (hm | ⟨-, rfl⟩)
          · exact .inl (.inl hm)
          · exact .inl (.inr rfl)
      · have hef : e ≠ f := fun h => he (h ▸ rfl)
        simp only [mem_append, mem_singleton, hef, or_false, or_imp, forall_and,
          forall_eq, beq_false_of_ne he, ne_eq, he, not_false_iff, and_true]

theorem mem_exposed : e ∈ exposed es ↔ es.find? (·.name == e.name) = some e := by
  rw [exposed, mem_foldl_expose]
  simp

theorem mem_exposed_names {x : String} :
    x ∈ (exposed es).map Exposure.name ↔ x ∈ es.map Exposure.name := by
  constructor
  · intro h
    obtain ⟨e, he, rfl⟩ := mem_map.1 h
    exact mem_map_of_mem (mem_of_find?_eq_some (mem_exposed.1 he))
  · intro h
    obtain ⟨e, he, rfl⟩ := mem_map.1 h
    cases hf : es.find? (·.name == e.name) with
    | none => simpa using find?_eq_none.1 hf e he
    | some f =>
      have hn : f.name = e.name := by simpa using find?_some hf
      rw [← hn] at hf ⊢
      exact mem_map_of_mem (mem_exposed.2 hf)

end Exposed

namespace Script

def ExportSpecifier.exposure (files : FileTree) (file : Path) (source : Option String)
    (s : ExportSpecifier) : Exposure :=
  ⟨s.exported.text, match source with
    | some source => .property (originOf files file source) s.name.text
    | none => .binding s.name.text⟩

def Stmt.exposures (files : FileTree) (file : Path) : Stmt → List Exposure
  | .mk _ (.exportDecl isType (.mk _ kind)) =>
    if isType then [] else (declarationNames kind).map fun x => ⟨x, .binding x⟩
  | .mk _ (.exportNames d) =>
    if d.isType then []
    else (d.specifiers.filter (!·.isType)).map (ExportSpecifier.exposure files file d.source)
  | .mk _ (.exportAll d) =>
    d.exported.toList.map fun name => ⟨name.text, .whole (originOf files file d.source)⟩
  | .mk _ (.exportDefault _) => [⟨"default", .binding defaultName⟩]
  | .mk _ (.exportDefaultDecl (.mk _ (.func f))) =>
    [⟨"default", .binding (f.name.getD defaultName)⟩]
  | .mk _ (.exportDefaultDecl (.mk _ (.cls c))) =>
    [⟨"default", .binding (c.name.getD defaultName)⟩]
  | _ => []

def Stmt.kept? : Stmt → Option Stmt
  | .mk _ (.imports _) => none
  | .mk _ (.exportDecl isType s) => if isType then none else some s
  | .mk _ (.exportNames _) => none
  | .mk _ (.exportAll _) => none
  | .mk _ (.exportDefault e) => some (plainStmt (declare .const defaultName (some e)))
  | .mk _ (.exportDefaultDecl (.mk info (.func f))) => some (.mk info (.func (nameFunc f)))
  | .mk _ (.exportDefaultDecl (.mk info (.cls c))) => some (.mk info (.cls (nameClass c)))
  | .mk _ (.exportDefaultDecl _) => none
  | s => some s

def Stmt.refusal? (files : FileTree) (file : Path) : Stmt → Option Problem
  | .mk info (.exportNames d) =>
    if d.isType then none else d.source.bind fun source => unresolved? files file source info.span
  | .mk info (.exportAll d) =>
    (unresolved? files file d.source info.span).or
      (if d.exported.isSome then none else some (.ofCause .exportAll info.span))
  | _ => none

end Script

structure Unwrapped where
  body : List Stmt
  exports : List Exposure

namespace Unwrapped

def add (files : FileTree) (file : Path) (u : Unwrapped) (s : Stmt) : Unwrapped :=
  ⟨u.body ++ s.kept?.toList, (s.exposures files file).foldl expose u.exports⟩

def print (sources : Path) (u : Unwrapped) : Unbundled :=
  ⟨u.body, u.exports.map (·.toExport sources)⟩

theorem print_expose (sources : Path) (u : Unwrapped) (e : Exposure) :
    (u.print sources).expose e.name (e.shown.text sources) =
      Unwrapped.print sources ⟨u.body, expose u.exports e⟩ := by
  unfold Unbundled.expose print
  rw [expose_toExport]
  rfl

theorem print_exposes (sources : Path) (u : Unwrapped) (es : List Exposure) :
    es.foldl (fun v e => v.expose e.name (e.shown.text sources)) (u.print sources) =
      Unwrapped.print sources ⟨u.body, es.foldl expose u.exports⟩ := by
  induction es generalizing u with
  | nil => rfl
  | cons e es ih => rw [foldl_cons, print_expose, ih, foldl_cons]

theorem addStmt_eq (ctx : Context) (file : Path) (u : Unwrapped) (s : Stmt) :
    Unbundled.addStmt ctx file (u.print ctx.sources) s =
      match s.refusal? ctx.files file with
      | some e => .error e
      | none => .ok ((u.add ctx.files file s).print ctx.sources) := by
  obtain ⟨info, kind⟩ := s
  have hnothing : u.print ctx.sources = Unwrapped.print ctx.sources ⟨u.body ++ [], u.exports⟩ := by
    rw [append_nil]
  cases kind with
  | imports d => exact congrArg Except.ok hnothing
  | exportDefault e =>
    exact congrArg (fun v : Unbundled => Except.ok (v.keep _))
      (print_expose ctx.sources u ⟨"default", .binding defaultName⟩)
  | exportDecl isType inner =>
    obtain ⟨info', kind'⟩ := inner
    cases isType with
    | true => exact congrArg Except.ok hnothing
    | false =>
      have hfold := print_exposes ctx.sources u
        ((declarationNames kind').map fun x => ⟨x, .binding x⟩)
      rw [foldl_map] at hfold
      exact congrArg (fun v : Unbundled => Except.ok (v.keep _)) hfold
  | exportDefaultDecl inner =>
    obtain ⟨info', kind'⟩ := inner
    cases kind' with
    | func f =>
      exact congrArg (fun v : Unbundled => Except.ok (v.keep _))
        (print_expose ctx.sources u ⟨"default", .binding (f.name.getD defaultName)⟩)
    | cls c =>
      exact congrArg (fun v : Unbundled => Except.ok (v.keep _))
        (print_expose ctx.sources u ⟨"default", .binding (c.name.getD defaultName)⟩)
    | _ => exact congrArg Except.ok hnothing
  | exportAll d =>
    simp only [Unbundled.addStmt, moduleObject_eq, Stmt.refusal?]
    cases unresolved? ctx.files file d.source info.span with
    | some e => rfl
    | none =>
      cases hd : d.exported with
      | none => rfl
      | some name =>
        have he := print_expose ctx.sources u
          ⟨name.text, .whole (originOf ctx.files file d.source)⟩
        simp only [Unwrapped.add, Stmt.kept?, Stmt.exposures, hd, Option.toList, List.map,
          List.foldl, append_nil]
        exact congrArg Except.ok he
  | exportNames d =>
    cases ht : d.isType with
    | true =>
      simp only [Unbundled.addStmt, Stmt.refusal?, Unwrapped.add, Stmt.kept?, Stmt.exposures, ht,
        if_true]
      exact congrArg Except.ok hnothing
    | false =>
      simp only [Unbundled.addStmt, Stmt.refusal?, Unwrapped.add, Stmt.kept?, Stmt.exposures, ht,
        Bool.false_eq_true, if_false]
      cases hs : d.source with
      | none =>
        have hfold := print_exposes ctx.sources u
          ((d.specifiers.filter (!·.isType)).map (ExportSpecifier.exposure ctx.files file none))
        rw [foldl_map] at hfold
        simp only [Option.bind, Option.toList, append_nil]
        exact congrArg Except.ok hfold
      | some source =>
        simp only [Option.bind, moduleObject_eq]
        cases unresolved? ctx.files file source info.span with
        | some e => rfl
        | none =>
          have hfold := print_exposes ctx.sources u
            ((d.specifiers.filter (!·.isType)).map
              (ExportSpecifier.exposure ctx.files file (some source)))
          rw [foldl_map] at hfold
          simp only [Option.toList, append_nil]
          exact congrArg Except.ok hfold
  | _ => rfl

theorem foldl_add (files : FileTree) (file : Path) (body : List Stmt) (u : Unwrapped) :
    body.foldl (add files file) u =
      ⟨u.body ++ body.filterMap Stmt.kept?,
        (body.flatMap (·.exposures files file)).foldl expose u.exports⟩ := by
  induction body generalizing u with
  | nil => simp
  | cons s body ih =>
    rw [foldl_cons, ih, add, flatMap_cons, foldl_append, filterMap_cons]
    cases s.kept? <;> simp

end Unwrapped

structure Emitted where
  preamble : List PreambleLine
  /-- All between the import lines and the exports. -/
  body : String
  exports : List Exposure

namespace Emitted

def text (sources : Path) (m : Emitted) : String :=
  "'use strict';\n" ++ preambleText sources m.preamble ++ m.body ++
    exportsText (m.exports.map (·.toExport sources))

def bounds (m : Emitted) : List Bound :=
  m.preamble.flatMap PreambleLine.bounds

end Emitted

def moduleBody (preamble code : String) : String :=
  (if preamble.isEmpty then "" else "\n") ++ "\n" ++ String.ofList (Text.trimEnd code.toList) ++
    "\n\n"

theorem moduleText_eq (sources : Path) (lines : List PreambleLine) (code : String)
    (es : List Exposure) :
    moduleText (preambleText sources lines) code (exportsText (es.map (·.toExport sources))) =
      Emitted.text sources ⟨lines, moduleBody (preambleText sources lines) code, es⟩ := by
  unfold moduleText Emitted.text moduleBody
  by_cases hp : (preambleText sources lines).isEmpty
  · have he : preambleText sources lines = "" := String.isEmpty_iff.1 hp
    have hempty : "".isEmpty = true := rfl
    simp only [he, hempty, if_true, String.append_empty, String.empty_append, String.append_assoc]
  · simp [hp, String.append_assoc]

def moduleExports (files : FileTree) (file : Path) (cells : List String) (body : List Stmt) :
    List Exposure :=
  exposed (body.flatMap (·.exposures files file) ++
    (Text.sortNames cells).map fun x => ⟨x, .binding x⟩)

theorem moduleExports_toExport (sources : Path) (files : FileTree) (file : Path)
    (cells : List String) (body : List Stmt) :
    (moduleExports files file cells body).map (·.toExport sources) =
      (Text.sortNames cells).foldl (fun es x => addExport es ⟨x, x⟩)
        (((body.flatMap (·.exposures files file)).foldl expose []).map (·.toExport sources)) := by
  unfold moduleExports exposed
  rw [foldl_append, foldl_expose, map_map, foldl_map]
  rfl

def Script.Program.stripped (p : Program) (file : Path) (isTyped : Bool) :
    Except Problem Program :=
  let kept : Program := { p with body := p.body.filterMap Stmt.kept? }
  if isTyped then kept.untyped file.text else pure kept

def emitModule (ctx : Context) (file : Path) (isTyped : Bool) (code : String) (p : Program) :
    Except Problem Emitted := do
  let survey ← p.survey code
  let dependencies ← resolveAll ctx.files file survey.dependencies
  let cells := survey.cells ++ ctx.importedCells dependencies
  match p.body.findSome? (Stmt.refusal? ctx.files file) with
  | some e => .error e
  | none => do
    let plain ← p.stripped file isTyped
    let code := (← plain.track cells).print
    let lines ← preambleLines ctx.sources (!cells.isEmpty || callsRuntime code) dependencies
    return ⟨lines, moduleBody (preambleText ctx.sources lines) code,
      moduleExports ctx.files file survey.cells p.body⟩

def Path.isTyped (file : Path) : Bool :=
  file.extension? == some "ts"

theorem assembleModule_eq (ctx : Context) (file : Path) (source : String) :
    assembleModule ctx file source = do
      let p ← Program.parse file.isTyped source (.ofBytes 0 source.utf8ByteSize)
      return (← emitModule ctx file file.isTyped source p).text ctx.sources := by
  unfold assembleModule emitModule
  refine bind_congr fun p => ?_
  have hfold := foldlM_of_faults (r := Unwrapped.print ctx.sources)
    (Unwrapped.addStmt_eq ctx file) p.body ⟨[], []⟩
  rw [Unwrapped.foldl_add] at hfold
  have hstart : Unwrapped.print ctx.sources ⟨[], []⟩ = ⟨[], []⟩ := rfl
  rw [hstart] at hfold
  simp only [hfold, importBindings_eq, bind_assoc]
  refine bind_congr fun survey => ?_
  refine bind_congr fun dependencies => ?_
  cases p.body.findSome? (Stmt.refusal? ctx.files file) with
  | some e => rfl
  | none =>
    have htyped : (file.extension? == some "ts") = file.isTyped := rfl
    have hok (u : Unbundled) (k : Unbundled → Except Problem String) : (.ok u >>= k) = k u := rfl
    have hexports := moduleExports_toExport ctx.sources ctx.files file survey.cells p.body
    simp only [hok, Unwrapped.print, nil_append, htyped, ← hexports, Program.stripped]
    cases file.isTyped
    all_goals
      simp only [Bool.false_eq_true, if_false, if_true, bind_assoc]
      refine bind_congr fun plain => ?_
      refine bind_congr fun tracked => ?_
      cases preambleLines ctx.sources _ dependencies with
      | error e => rfl
      | ok lines =>
        exact congrArg Except.ok (moduleText_eq ctx.sources lines tracked.print _)

/-- What a component is compiled to. It has one export, named like its module. -/
def Assembly.emit (a : Assembly) : Except Problem Emitted :=
  (preambleLines a.sources true a.dependencies).map fun lines =>
    ⟨lines, "\n\nfunction " ++ a.name ++ "(props = \x7b\x7d) \x7b\n" ++ a.body ++ "\n\x7d\n\n",
      [⟨a.moduleName, .binding a.name⟩]⟩

theorem Assembly.text_eq (a : Assembly) : a.text = a.emit.map (Emitted.text a.sources) := by
  unfold Assembly.text Assembly.emit
  rw [importBindings_eq]
  cases preambleLines a.sources true a.dependencies with
  | error e => rfl
  | ok lines =>
    refine congrArg Except.ok ?_
    have hjoin : "\n\x7d\n\nthis." = "\n\x7d\n\n" ++ "this." := rfl
    have hone (text : String) : String.join [text] = text := by
      rw [String.join_cons, String.join_nil, String.append_empty]
    have hexport : exportsText (List.map (Exposure.toExport a.sources)
        [⟨a.moduleName, .binding a.name⟩]) =
        "this." ++ a.moduleName ++ " = " ++ a.name ++ ";\n" := by
      rw [exportsText, map_singleton, map_singleton, hone]
      rfl
    unfold Emitted.text
    rw [hexport]
    simp only [hjoin, String.append_assoc]

def Source.emitted (ctx : Context) (s : Source) : Except Problem Emitted :=
  let file := s.file.path
  Except.mapError (·.inFile file.text) <| match s.file.kind with
    | .component => do (← componentAssembly ctx file s.text).emit
    | .script | .typedScript => do
      emitModule ctx file file.isTyped s.text
        (← Program.parse file.isTyped s.text (.ofBytes 0 s.text.utf8ByteSize))

theorem componentAssembly_sources {ctx : Context} {file : Path} {source : String} {a : Assembly}
    (h : componentAssembly ctx file source = .ok a) : a.sources = ctx.sources := by
  unfold componentAssembly at h
  obtain ⟨document, -, h⟩ := bind_ok.1 h
  split at h
  all_goals
    obtain ⟨_, -, h⟩ := bind_ok.1 h
    obtain ⟨_, -, h⟩ := bind_ok.1 h
    cases h
    rfl

theorem Source.compile_eq (ctx : Context) (s : Source) :
    s.compile ctx = (s.emitted ctx).map (Emitted.text ctx.sources) := by
  have hmap {α β : Type} (f : α → β) (g : Problem → Problem) (x : Except Problem α) :
      (x.mapError g).map f = (x.map f).mapError g := by
    cases x <;> rfl
  have hmodule : compileModule ctx s.file.path s.text =
      (Except.mapError (·.inFile s.file.path.text) (do
        emitModule ctx s.file.path s.file.path.isTyped s.text
          (← Program.parse s.file.path.isTyped s.text (.ofBytes 0 s.text.utf8ByteSize)))).map
        (Emitted.text ctx.sources) := by
    rw [compileModule, assembleModule_eq, hmap]
    congr 1
    cases Program.parse s.file.path.isTyped s.text (.ofBytes 0 s.text.utf8ByteSize) with
    | error e => rfl
    | ok p =>
      change (emitModule _ _ _ _ p >>= fun m => pure (m.text ctx.sources)) =
        (emitModule _ _ _ _ p).map (Emitted.text ctx.sources)
      cases emitModule ctx s.file.path s.file.path.isTyped s.text p <;> rfl
  unfold Source.compile Source.emitted
  cases s.file.kind with
  | script => exact hmodule
  | typedScript => exact hmodule
  | component =>
    dsimp only
    rw [compileComponent, assembleComponent, hmap]
    congr 1
    cases ha : componentAssembly ctx s.file.path s.text with
    | error e => rfl
    | ok a =>
      change a.text = a.emit.map (Emitted.text ctx.sources)
      rw [a.text_eq, componentAssembly_sources ha]

end WidgetCompiler
