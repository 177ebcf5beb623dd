import Mathlib
import WidgetCompiler.Proofs.Linking.Forwarding

namespace WidgetCompiler

open List
open Script (Program Stmt StmtInfo ModuleName)

variable {files : FileTree} {file : Path} {st : Stmt} {e : Exposure} {before after : List Stmt}
  {ctx : Context} {p : Program} {m : Emitted} {v : Access} {s : Source}

def Shown.IsRead (sources : Path) (preamble : List PreambleLine) (v : Access) : Shown → Prop
  | .property origin y => v = ⟨origin.object sources, some y⟩
  | .whole origin => v = ⟨origin.object sources, none⟩
  | .binding y => (y, v) ∈ preamble.flatMap (·.reads sources)

def Emitted.Gives (m : Emitted) (sources : Path) (x : String) (v : Access) : Prop :=
  ∃ e ∈ m.exports, e.name = x ∧ e.shown.IsRead sources m.preamble v

namespace Script

def Stmt.outerNames (st : Stmt) : List String :=
  st.listed.map (·.2.exported.text) ++ st.ownExports

def reexportOf (info : StmtInfo) (span : Span) (a b : ModuleName) (source : String) : Stmt :=
  .mk info (.exportNames ⟨false, [⟨span, false, a, b⟩], some source, []⟩)

def importOf (info : StmtInfo) (a : ModuleName) (t source : String) : Stmt :=
  .mk info (.imports ⟨false, source, some [.named false a t], []⟩)

def exportOf (info : StmtInfo) (span : Span) (t : String) (b : ModuleName) : Stmt :=
  .mk info (.exportNames ⟨false, [⟨span, false, ⟨t, false⟩, b⟩], none, []⟩)

theorem name_mem_outerNames (h : e ∈ st.exposures files file) : e.name ∈ st.outerNames := by
  rcases of_mem_exposures h with ⟨l, hl, -, rfl⟩ | ⟨hown, -⟩
  · exact mem_append_left _ (mem_map_of_mem hl)
  · exact mem_append_right _ hown

end Script

theorem mem_moduleExports_of_first {cells : List String} (hst : st.exposures files file = [e])
    (hfirst : e.name ∉ before.flatMap Stmt.outerNames) (e' : Exposure) :
    e' ∈ moduleExports files file cells (before ++ st :: after) ∧ e'.name = e.name ↔ e' = e := by
  have hnone : (before.flatMap (Stmt.exposures files file)).find? (·.name == e.name) = none := by
    apply find?_eq_none.2
    intro f hf
    obtain ⟨t, ht, hf⟩ := mem_flatMap.1 hf
    have hname : f.name ≠ e.name := by
      intro heq
      apply hfirst
      rw [← heq]
      exact mem_flatMap.2 ⟨t, ht, Script.name_mem_outerNames hf⟩
    simpa using hname
  have hfind (rest : List Exposure) : (before.flatMap (Stmt.exposures files file) ++
      ([e] ++ rest)).find? (·.name == e.name) = some e := by
    rw [find?_append, hnone]
    simp
  rw [moduleExports, mem_exposed, flatMap_append, flatMap_cons, hst, append_assoc,
    append_assoc]
  constructor
  · intro h
    obtain ⟨h, hname⟩ := h
    rw [hname, hfind] at h
    exact (Option.some.inj h).symm
  · intro h
    subst h
    exact ⟨hfind _, rfl⟩

theorem IsEmitted.gives_iff (hm : IsEmitted ctx file p m) (hbody : p.body = before ++ st :: after)
    (hst : st.exposures ctx.files file = [e]) (hfirst : e.name ∉ before.flatMap Stmt.outerNames) :
    m.Gives ctx.sources e.name v ↔ e.shown.IsRead ctx.sources m.preamble v := by
  have hexports := hm.exports
  rw [hbody] at hexports
  constructor
  · intro h
    obtain ⟨e', he', hname, hv⟩ := h
    rw [hexports] at he'
    obtain rfl := (mem_moduleExports_of_first hst hfirst e').1 ⟨he', hname⟩
    exact hv
  · intro hv
    refine ⟨e, ?_, rfl, hv⟩
    rw [hexports]
    exact ((mem_moduleExports_of_first hst hfirst e).2 rfl).1

theorem IsEmitted.mem_reads (hm : IsEmitted ctx file p m) {x : String} :
    (x, v) ∈ m.preamble.flatMap (·.reads ctx.sources) ↔
      ∃ b ∈ m.bounds, b.specifier.binding = x ∧ b.access ctx.sources = v := by
  simp only [Emitted.bounds, mem_flatMap]
  constructor
  · intro h
    obtain ⟨l, hl, h⟩ := h
    obtain ⟨b, hb, hx, hv⟩ := (WidgetCompiler.mem_reads (hm.faithful l hl)).1 h
    exact ⟨b, ⟨l, hl, hb⟩, hx, hv⟩
  · intro h
    obtain ⟨b, ⟨l, hl, hb⟩, hx, hv⟩ := h
    exact ⟨l, hl, (WidgetCompiler.mem_reads (hm.faithful l hl)).2 ⟨b, hb, hx, hv⟩⟩

def Origin.ReadsName (sources : Path) (a : String) : Origin → Prop
  | .relative => False
  | .toolkit _ _ => a ≠ "default" ∧ a ≠ "*"
  | .builtin _ => a ≠ "default" ∧ a ≠ "*"
  | .module file true => file.isUnder sources = true ∧ a = moduleName file sources
  | .module file false => file.isUnder sources = true ∧ a ≠ "*"

theorem readsName_iff {sources : Path} {a : String} {o : Origin} (t : String) :
    o.ReadsName sources a ↔
      o.IsLinked sources ∧ (Bound.mk o ⟨t, a⟩).property? sources = some a := by
  cases o with
  | relative => exact ⟨False.elim, fun h => h.1⟩
  | toolkit name version =>
    simp [Origin.ReadsName, Origin.IsLinked, Bound.property?, Specifier.isWhole]
  | builtin name => simp [Origin.ReadsName, Origin.IsLinked, Bound.property?, Specifier.isWhole]
  | module file isComponent =>
    cases isComponent with
    | true =>
      simp only [Origin.ReadsName, Origin.IsLinked, Bound.property?, Option.some.injEq]
      rw [eq_comm (a := a)]
    | false => simp [Origin.ReadsName, Origin.IsLinked, Bound.property?]

section Pair

variable {ctx : Context} {file : Path} {isTyped : Bool} {code code' : String} {p : Program}
  {before after : List Stmt} {i j k : StmtInfo} {x y : Span} {a b : ModuleName} {t source : String}
  {m : Emitted} {v : Access}

def reexporting (p : Program) (before : List Stmt) (i : StmtInfo) (x : Span) (a b : ModuleName)
    (source : String) (after : List Stmt) : Program :=
  { p with body := before ++ Script.reexportOf i x a b source :: after }

def importing (p : Program) (before : List Stmt) (j k : StmtInfo) (y : Span) (a b : ModuleName)
    (t source : String) (after : List Stmt) : Program :=
  { p with body := before ++ Script.importOf j a t source :: Script.exportOf k y t b :: after }

theorem mem_imports_importing {d : Script.ImportDecl} :
    d ∈ (importing p before j k y a b t source after).imports ↔
      d = ⟨false, source, some [.named false a t], []⟩ ∨
        ∃ st ∈ before ++ after, st.import? = some d := by
  simp only [Program.imports, importing, mem_filterMap, mem_append, mem_cons]
  constructor
  · intro h
    obtain ⟨st, hst | rfl | rfl | hst, hd⟩ := h
    · exact .inr ⟨st, .inl hst, hd⟩
    · exact .inl (Option.some.inj hd).symm
    · cases hd
    · exact .inr ⟨st, .inr hst, hd⟩
  · intro h
    rcases h with rfl | ⟨st, hst | hst, hd⟩
    · exact ⟨_, .inr (.inl rfl), rfl⟩
    · exact ⟨st, .inl hst, hd⟩
    · exact ⟨st, .inr (.inr (.inr hst)), hd⟩

theorem gives_importing
    (hm : IsEmitted ctx file (importing p before j k y a b t source after) m)
    (hb : b.text ∉ before.flatMap Stmt.outerNames)
    (ht : ∀ st ∈ before ++ after, ∀ d, st.import? = some d → ∀ sp ∈ d.specifiers, sp.binding ≠ t) :
    m.Gives ctx.sources b.text v ↔
      (Bound.mk (originOf ctx.files file source) ⟨t, a.text⟩).access ctx.sources = v := by
  have hfirst : b.text ∉ (before ++ [Script.importOf j a t source]).flatMap Stmt.outerNames := by
    rw [flatMap_append, mem_append]
    intro h
    rcases h with h | h
    · exact hb h
    · cases h
  have hbody : (importing p before j k y a b t source after).body =
      (before ++ [Script.importOf j a t source]) ++ Script.exportOf k y t b :: after := by
    simp [importing]
  have hgives := hm.gives_iff (e := ⟨b.text, .binding t⟩) hbody rfl hfirst (v := v)
  refine hgives.trans (hm.mem_reads.trans ?_)
  constructor
  · intro h
    obtain ⟨bd, hbd, hbinding, hv⟩ := h
    obtain ⟨d, hd, hsp, horigin⟩ := (hm.bounds bd).1 hbd
    rcases mem_imports_importing.1 hd with rfl | ⟨st, hst, hd⟩
    · obtain rfl : bd = ⟨originOf ctx.files file source, ⟨t, a.text⟩⟩ := by
        obtain ⟨o, sp⟩ := bd
        have hsp : sp = ⟨t, a.text⟩ := by
          simpa [Script.ImportDecl.specifiers, Script.ImportSpecifier.specifier?] using hsp
        rw [hsp]
        exact congrArg (Bound.mk · _) horigin
      exact hv
    · exact absurd hbinding (ht st hst d hd _ hsp)
  · intro hv
    refine ⟨_, (hm.bounds _).2 ⟨_, mem_imports_importing.2 (.inl rfl), ?_, rfl⟩, rfl, hv⟩
    simp [Script.ImportDecl.specifiers, Script.ImportSpecifier.specifier?]

theorem refusal?_reexportOf :
    (Script.reexportOf i x a b source).refusal? files file = none ↔
      originOf files file source ≠ .relative := by
  simp only [Script.reexportOf, Stmt.refusal?, Bool.false_eq_true, if_false, Option.bind_some]
  exact unresolved?_eq_none

theorem forall_imports {P : Script.ImportDecl → Prop} :
    (∀ d ∈ p.imports, P d) ↔ ∀ st ∈ p.body, ∀ d, st.import? = some d → P d := by
  simp only [Program.imports, mem_filterMap]
  constructor
  · intro h st hst d hd
    exact h d ⟨st, hst, hd⟩
  · intro h d hd
    obtain ⟨st, hst, hd⟩ := hd
    exact h st hst d hd

theorem stripped_importing :
    (importing p before j k y a b t source after).stripped file isTyped =
      (reexporting p before i x a b source after).stripped file isTyped := by
  have hkept : (importing p before j k y a b t source after).body.filterMap Stmt.kept? =
      (reexporting p before i x a b source after).body.filterMap Stmt.kept? := by
    rw [importing, reexporting, filterMap_append, filterMap_append]
    rfl
  unfold Program.stripped
  rw [hkept]
  rfl

theorem emits_importing_iff (code code' : String) :
    (∃ m, emitModule ctx file isTyped code' (importing p before j k y a b t source after) = .ok m) ↔
      (∃ m, emitModule ctx file isTyped code (reexporting p before i x a b source after) = .ok m) ∧
        (originOf ctx.files file source).IsLinked ctx.sources := by
  simp only [emitModule_ok_iff, forall_imports, stripped_importing (i := i) (x := x)]
  simp only [importing, reexporting, forall_around, refusal?_reexportOf]
  have himport : (∀ d, (Script.importOf j a t source).import? = some d →
      (originOf ctx.files file d.source).IsLinked ctx.sources) ↔
        (originOf ctx.files file source).IsLinked ctx.sources := by
    constructor
    · intro h
      exact h _ rfl
    · intro h d hd
      obtain rfl := Option.some.inj hd
      exact h
  have hreexport : ∀ d, (Script.reexportOf i x a b source).import? = some d →
      (originOf ctx.files file d.source).IsLinked ctx.sources := by
    intro d hd
    cases hd
  have hexport : ∀ d, (Script.exportOf k y t b).import? = some d →
      (originOf ctx.files file d.source).IsLinked ctx.sources := by
    intro d hd
    cases hd
  have hfaults : (Script.importOf j a t source).fault? = none ∧
      (Script.exportOf k y t b).fault? = none ∧
      (Script.reexportOf i x a b source).fault? = none := ⟨rfl, rfl, rfl⟩
  have hrefusals : (Script.importOf j a t source).refusal? ctx.files file = none ∧
      (Script.exportOf k y t b).refusal? ctx.files file = none := ⟨rfl, rfl⟩
  simp only [himport, hfaults, hrefusals, true_and]
  constructor
  · intro h
    obtain ⟨hfault, ⟨hlinked, -, himports⟩, hrefusal, hplain⟩ := h
    exact ⟨⟨hfault, ⟨hreexport, himports⟩, ⟨IsLinked.ne_relative hlinked, hrefusal⟩, hplain⟩,
      hlinked⟩
  · intro h
    obtain ⟨⟨hfault, ⟨-, himports⟩, ⟨-, hrefusal⟩, hplain⟩, hlinked⟩ := h
    exact ⟨hfault, ⟨hlinked, hexport, himports⟩, hrefusal, hplain⟩

end Pair

theorem Source.compiles_iff : (∃ code, s.compile ctx = .ok code) ↔ ∃ m, s.emitted ctx = .ok m := by
  rw [Source.compile_eq]
  cases s.emitted ctx <;> simp [Except.map]

theorem Source.IsPlain.emits_iff (hs : s.IsPlain p) :
    (∃ m, s.emitted ctx = .ok m) ↔
      ∃ m, emitModule ctx s.file.path s.file.path.isTyped s.text p = .ok m := by
  rw [hs.emitted_eq]
  cases emitModule ctx s.file.path s.file.path.isTyped s.text p <;> simp [Except.mapError]

/-- Forwarding an export against importing and exporting it, in the same place of the same module.
They are compiled together and give the export the same value just when the module is refused in any
case, or the import reads the property that it names. -/
theorem reexport_agrees_iff {ctx : Context} {s s' : Source} {p : Program}
    {before after : List Stmt} {i j k : StmtInfo} {x y : Span} {a b : ModuleName}
    {t source : String} (hfile : s'.file = s.file)
    (hs : s.IsPlain (reexporting p before i x a b source after))
    (hs' : s'.IsPlain (importing p before j k y a b t source after))
    (hb : b.text ∉ before.flatMap Stmt.outerNames)
    (ht : ∀ st ∈ before ++ after, ∀ d, st.import? = some d → ∀ sp ∈ d.specifiers, sp.binding ≠ t) :
    (((∃ code, s.compile ctx = .ok code) ↔ ∃ code, s'.compile ctx = .ok code) ∧
      ∀ m m', s.emitted ctx = .ok m → s'.emitted ctx = .ok m' →
        ∀ v, m.Gives ctx.sources b.text v ↔ m'.Gives ctx.sources b.text v) ↔
      (∀ code, s.compile ctx ≠ .ok code) ∨
        (originOf ctx.files s.file.path source).ReadsName ctx.sources a.text := by
  have hpath : s'.file.path = s.file.path := congrArg SourceFile.path hfile
  have hokay : (∃ m, s'.emitted ctx = .ok m) ↔ (∃ m, s.emitted ctx = .ok m) ∧
      (originOf ctx.files s.file.path source).IsLinked ctx.sources := by
    rw [hs.emits_iff, hs'.emits_iff, hpath]
    exact emits_importing_iff s.text s'.text
  rw [Source.compiles_iff, Source.compiles_iff]
  by_cases hok : ∃ m, s.emitted ctx = .ok m
  · have hsome : ¬ ∀ code, s.compile ctx ≠ .ok code := by
      intro h
      obtain ⟨code, hcode⟩ := Source.compiles_iff.2 hok
      exact h code hcode
    rw [or_iff_right hsome, readsName_iff t, hokay]
    have hgives {m : Emitted} (hm : s.emitted ctx = .ok m) (v : Access) :=
      (hs.isEmitted hm).gives_iff (v := v)
        (e := ⟨b.text, .property (originOf ctx.files s.file.path source) a.text⟩) rfl rfl hb
    have hgives' {m : Emitted} (hm : s'.emitted ctx = .ok m) (v : Access) :=
      gives_importing (v := v) (hs'.isEmitted hm) hb ht
    rw [hpath] at hgives'
    constructor
    · intro h
      obtain ⟨hboth, hvalues⟩ := h
      have hlinked := (hboth.1 hok).2
      obtain ⟨m, hm⟩ := hok
      obtain ⟨m', hm'⟩ := hokay.2 ⟨⟨m, hm⟩, hlinked⟩
      have hv := (hgives' hm' _).1 ((hvalues m m' hm hm' _).1 ((hgives hm _).2 rfl))
      exact ⟨hlinked, congrArg Access.property hv⟩
    · intro h
      obtain ⟨hlinked, hproperty⟩ := h
      refine ⟨⟨fun hm => ⟨hm, hlinked⟩, fun hm => hm.1⟩, ?_⟩
      intro m m' hm hm' v
      rw [hgives hm, hgives' hm', Bound.access, hproperty]
      exact eq_comm
  · have hnone : ∀ code, s.compile ctx ≠ .ok code := by
      intro code hcode
      exact hok (Source.compiles_iff.1 ⟨code, hcode⟩)
    refine iff_of_true ⟨iff_of_false hok fun h => hok (hokay.1 h).1, ?_⟩ (.inl hnone)
    intro m m' hm
    exact absurd ⟨m, hm⟩ hok

def sharedExport : FileTree :=
  smallProject [("a.js", "export \x7b x as y \x7d from './b.js';"), ("b.js", "export let x = 1;")]

def sharedContext : Context :=
  ⟨⟨"/proj/src"⟩, .empty, sharedExport⟩

def forwardingShared : Source :=
  ⟨⟨⟨"/proj/src/a.js"⟩, .script⟩, "export \x7b x as y \x7d from './b.js';"⟩

def importingShared : Source :=
  ⟨⟨⟨"/proj/src/a.js"⟩, .script⟩, "import \x7b x as t \x7d from './b.js';\nexport \x7b t as y \x7d;"⟩

theorem sharedExport_agrees :
    (∃ code, forwardingShared.compile sharedContext = .ok code) ∧
      (∃ code, importingShared.compile sharedContext = .ok code) ∧
      ∀ m m', forwardingShared.emitted sharedContext = .ok m →
        importingShared.emitted sharedContext = .ok m' →
        ∀ v, m.Gives ⟨"/proj/src"⟩ "y" v ↔ m'.Gives ⟨"/proj/src"⟩ "y" v := by
  have hs : forwardingShared.IsPlain (reexporting ⟨none, [], [], []⟩ [] ⟨[], ⟨0, 32⟩⟩ ⟨9, 15⟩
      ⟨"x", false⟩ ⟨"y", false⟩ "./b.js" []) := by
    refine ⟨by decide +kernel, by decide, ?_⟩
    cbv
  have hs' : importingShared.IsPlain (importing ⟨none, [], [], []⟩ [] ⟨[], ⟨0, 32⟩⟩
      ⟨[], ⟨33, 51⟩⟩ ⟨42, 48⟩ ⟨"x", false⟩ ⟨"y", false⟩ "t" "./b.js" []) := by
    refine ⟨by decide +kernel, by decide, ?_⟩
    cbv
  have horigin : originOf sharedExport ⟨"/proj/src/a.js"⟩ "./b.js" =
      .module ⟨"/proj/src/b.js"⟩ false := by
    decide +kernel
  have hreads : (originOf sharedContext.files forwardingShared.file.path "./b.js").ReadsName
      sharedContext.sources "x" := by
    change (originOf sharedExport ⟨"/proj/src/a.js"⟩ "./b.js").ReadsName ⟨"/proj/src"⟩ "x"
    rw [horigin]
    exact ⟨by decide +kernel, by decide⟩
  have hagrees := (@reexport_agrees_iff sharedContext forwardingShared importingShared _ [] []
    _ _ _ _ _ ⟨"x", false⟩ ⟨"y", false⟩ _ _ rfl hs hs' (by decide) (by simp)).2 (.inr hreads)
  have hok : ∃ code, forwardingShared.compile sharedContext = .ok code := by
    have hsome : (forwardingShared.compile sharedContext).toOption.isSome = true := by
      decide +kernel
    obtain ⟨code, hcode⟩ := Option.isSome_iff_exists.1 hsome
    exact ⟨code, ok_of_toOption hcode⟩
  exact ⟨hok, hagrees.1.1 hok, hagrees.2⟩

def sharedButton : FileTree :=
  smallProject [("Button.svelte", "<box></box>"),
    ("a.js", "export \x7b default as Button \x7d from './Button.svelte';"),
    ("b.js", "import \x7b default as t \x7d from './Button.svelte';\nexport \x7b t as Button \x7d;")]

/-- The compiled component has no property `default`, which the first module reads; the second one
reads the property that there is. -/
theorem sharedButton_differs :
    (compileFile sharedButton ⟨"src/a.js"⟩ ⟨"src"⟩).toOption =
        some "'use strict';\n\n\n\nthis.Button = imports.Button.default;\n" ∧
      (compileFile sharedButton ⟨"src/b.js"⟩ ⟨"src"⟩).toOption =
        some "'use strict';\nconst \x7b Button: t \x7d = imports.Button;\n\n\n\nthis.Button = t;\n" := by
  decide +kernel

end WidgetCompiler
