import WidgetCompiler.Imports
import WidgetCompiler.Proofs.Markup.Stretches

namespace WidgetCompiler

open List

variable {file : Path} {isComponent : Bool} {d : Dependency} {ds : List Dependency}
  {needsRuntime : Bool} {l : PreambleLine} {p : Preamble}

attribute [local simp] Function.comp_def filter_map

/-- The object that the exports of an origin are properties of. A relative source has none before
it is resolved. -/
def Origin.object (sources : Path) : Origin → String
  | .toolkit name _ => "imports.gi." ++ name
  | .builtin name => "imports." ++ name
  | .module file _ => "imports." ++ moduleName file sources
  | .relative => "imports"

structure Access where
  object : String
  property : Option String
deriving Repr, DecidableEq

/-- A name that an import binds, with the place it comes from. -/
structure Bound where
  origin : Origin
  specifier : Specifier
deriving Repr, DecidableEq

namespace Bound

/-- The property that is bound; nothing for the whole object. A component has only one. -/
def property? (sources : Path) (b : Bound) : Option String :=
  match b.origin with
  | .module file true => some (moduleName file sources)
  | .module _ false => if b.specifier.imported = "*" then none else some b.specifier.imported
  | _ => if b.specifier.isWhole then none else some b.specifier.imported

def access (sources : Path) (b : Bound) : Access :=
  ⟨b.origin.object sources, b.property? sources⟩

def isNamed (sources : Path) (b : Bound) : Bool :=
  (b.property? sources).isSome

def entry (sources : Path) (b : Bound) : String :=
  match b.origin with
  | .module file true => moduleName file sources ++ ": " ++ b.specifier.binding
  | _ => b.specifier.entry

end Bound

def Dependency.bounds (d : Dependency) : List Bound :=
  d.specifiers.map (⟨d.origin, ·⟩)

inductive PreambleLine
  | version (name version : String)
  /-- `const x = object;`. -/
  | whole (b : Bound)
  /-- `const { a, b: c } = object;`. -/
  | named (object : String) (bs : List Bound)
  | runtime
deriving Repr, DecidableEq

namespace PreambleLine

def text (sources : Path) : PreambleLine → String
  | .version name v => "imports.gi.versions." ++ name ++ " = '" ++ v ++ "';"
  | .whole b => binding b.specifier.binding (b.origin.object sources)
  | .named object bs => destructuring (bs.map (Bound.entry sources)) object
  | .runtime => runtimeBindings

@[simp] theorem text_version (sources : Path) (name v : String) :
    (version name v).text sources = "imports.gi.versions." ++ name ++ " = '" ++ v ++ "';" :=
  rfl

@[simp] theorem text_whole (sources : Path) (b : Bound) :
    (whole b).text sources = binding b.specifier.binding (b.origin.object sources) :=
  rfl

@[simp] theorem text_named (sources : Path) (object : String) (bs : List Bound) :
    (named object bs).text sources = destructuring (bs.map (Bound.entry sources)) object :=
  rfl

@[simp] theorem text_runtime (sources : Path) : runtime.text sources = runtimeBindings :=
  rfl

def bounds : PreambleLine → List Bound
  | .whole b => [b]
  | .named _ bs => bs
  | _ => []

def object? (sources : Path) : PreambleLine → Option String
  | .version _ _ => none
  | .whole b => some (b.origin.object sources)
  | .named object _ => some object
  | .runtime => some "imports.runtime"

/-- What the line binds for imports. The runtime line has none of them. -/
def reads (sources : Path) : PreambleLine → List (String × Access)
  | .whole b => [(b.specifier.binding, ⟨b.origin.object sources, none⟩)]
  | .named object bs => bs.map fun b => (b.specifier.binding, ⟨object, b.property? sources⟩)
  | _ => []

def IsFaithful (sources : Path) : PreambleLine → Prop
  | .whole b => b.property? sources = none
  | .named object bs => bs ≠ [] ∧ ∀ b ∈ bs, b.origin.object sources = object
  | _ => True

end PreambleLine

def Dependency.objectLines (sources : Path) (d : Dependency) : List PreambleLine :=
  let named := d.bounds.filter (Bound.isNamed sources)
  (d.bounds.filter (!·.isNamed sources)).map .whole ++
    if named.isEmpty then [] else [.named (d.origin.object sources) named]

structure Preamble where
  versions : List (String × String)
  toolkit : List PreambleLine
  builtin : List PreambleLine
  modules : List (String × List Bound)
  objects : List PreambleLine

namespace Preamble

def empty : Preamble :=
  ⟨[], [], [], [], []⟩

def add (sources : Path) (p : Preamble) (d : Dependency) : Preamble :=
  match d.origin with
  | .toolkit name version =>
    { p with
      versions := match version with
        | some v => alter name (fun _ => v) p.versions
        | none => p.versions
      toolkit := p.toolkit ++ d.objectLines sources }
  | .builtin _ => { p with builtin := p.builtin ++ d.objectLines sources }
  | .module file _ =>
    { p with
      modules := alter (moduleName file sources)
        (fun bs => bs.getD [] ++ d.bounds.filter (Bound.isNamed sources)) p.modules
      objects := p.objects ++ (d.bounds.filter (!·.isNamed sources)).map .whole }
  | .relative => p

def lines (p : Preamble) (needsRuntime : Bool) : List PreambleLine :=
  p.versions.map (fun (name, version) => .version name version) ++
  p.toolkit ++
  p.builtin ++
  (if needsRuntime then [.runtime] else []) ++
  ((p.modules.filter (!·.2.isEmpty)).map fun (name, bs) => .named ("imports." ++ name) bs) ++
  p.objects

def print (sources : Path) (p : Preamble) : Imports where
  versions := p.versions
  toolkit := p.toolkit.map (·.text sources)
  builtin := p.builtin.map (·.text sources)
  modules := p.modules.map fun (name, bs) => (name, bs.map (Bound.entry sources))
  objects := p.objects.map (·.text sources)

end Preamble

def Dependency.misplaced? (sources : Path) (d : Dependency) : Option Problem :=
  match d.origin with
  | .module file _ =>
    if file.isUnder sources then none
    else some (.ofCause (.importOutside d.source sources.text) d.span)
  | .relative => some (.ofCause (.importNotResolved d.source) d.span)
  | _ => none

section Printing

variable (sources : Path) {d : Dependency}

/-- A fold that stops at the first item with a fault, with its results seen through `r`. -/
theorem foldlM_of_faults {α β γ : Type} {f : β → α → Except Problem β} {g : γ → α → γ} {r : γ → β}
    {fault? : α → Option Problem}
    (h : ∀ c a, f (r c) a = match fault? a with
      | some e => .error e
      | none => .ok (r (g c a)))
    (l : List α) (c : γ) :
    l.foldlM f (r c) = match l.findSome? fault? with
      | some e => .error e
      | none => .ok (r (l.foldl g c)) := by
  induction l generalizing c with
  | nil => rfl
  | cons a l ih =>
    rw [foldlM_cons, h, findSome?_cons]
    cases fault? a with
    | some e => rfl
    | none => exact ih (g c a)

theorem map_alter {α β : Type} (f : α → β) (key : String) (a : Option α → α) (b : Option β → β)
    (h : ∀ o, f (a o) = b (o.map f)) (l : List (String × α)) :
    (alter key a l).map (fun p => (p.1, f p.2)) = alter key b (l.map fun p => (p.1, f p.2)) := by
  induction l with
  | nil => simp [alter, h]
  | cons p l ih =>
    obtain ⟨k, v⟩ := p
    rw [alter, map_cons, alter]
    split
    · simp [h]
    · split
      · simp [h]
      · simp [ih]

theorem objectLines_text (hd : ∀ file b, d.origin ≠ .module file b) :
    (d.objectLines sources).map (·.text sources) =
      objectBindings d.specifiers (d.origin.object sources) := by
  have hnamed (s : Specifier) : (Bound.mk d.origin s).isNamed sources = !s.isWhole := by
    unfold Bound.isNamed Bound.property?
    cases ho : d.origin with
    | module file b => exact absurd ho (hd file b)
    | _ => cases s.isWhole <;> rfl
  have hentry (s : Specifier) : (Bound.mk d.origin s).entry sources = s.entry := by
    unfold Bound.entry
    cases ho : d.origin with
    | module file b => exact absurd ho (hd file b)
    | _ => rfl
  have hwhole : d.bounds.filter (!·.isNamed sources) =
      (d.specifiers.filter Specifier.isWhole).map (⟨d.origin, ·⟩) := by
    simp [Dependency.bounds, hnamed]
  have hrest : d.bounds.filter (Bound.isNamed sources) =
      (d.specifiers.filter (!·.isWhole)).map (⟨d.origin, ·⟩) := by
    simp [Dependency.bounds, hnamed]
  unfold Dependency.objectLines objectBindings
  rw [hwhole, hrest, map_append, isEmpty_map]
  congr 1
  · simp
  · split
    · rfl
    · simp [hentry]

theorem isNamed_module (file : Path) (s : Specifier) :
    (Bound.mk (.module file false) s).isNamed sources = (s.imported != "*") := by
  unfold Bound.isNamed Bound.property?
  by_cases hs : s.imported = "*" <;> simp [hs]

theorem module_entries (hd : d.origin = .module file isComponent) :
    (d.bounds.filter (Bound.isNamed sources)).map (Bound.entry sources) =
      moduleEntries isComponent (moduleName file sources) d.specifiers := by
  cases isComponent with
  | true =>
    have hall : d.bounds.filter (Bound.isNamed sources) = d.bounds := by
      apply filter_eq_self.2
      intro b hb
      obtain ⟨s, -, rfl⟩ := mem_map.1 hb
      simp [Bound.isNamed, Bound.property?, hd]
    rw [hall]
    simp [moduleEntries, Dependency.bounds, hd, Bound.entry]
  | false => simp [moduleEntries, Dependency.bounds, hd, isNamed_module, Bound.entry]

theorem module_objects (hd : d.origin = .module file isComponent) :
    ((d.bounds.filter (!·.isNamed sources)).map PreambleLine.whole).map (·.text sources) =
      moduleObjects isComponent (moduleName file sources) d.specifiers := by
  cases isComponent with
  | true =>
    simp [moduleObjects, Dependency.bounds, hd, Bound.isNamed, Bound.property?]
  | false =>
    have hnot (s : Specifier) : (!s.imported != "*") = (s.imported == "*") := by
      cases h : s.imported == "*" <;> simp_all
    simp [moduleObjects, Dependency.bounds, hd, isNamed_module, hnot, Origin.object]

theorem add_print (p : Preamble) (d : Dependency) :
    Imports.add sources (p.print sources) d =
      match d.misplaced? sources with
      | some e => .error e
      | none => .ok ((p.add sources d).print sources) := by
  unfold Imports.add Dependency.misplaced? Preamble.add
  cases ho : d.origin with
  | relative => rfl
  | toolkit name version =>
    have hlines := objectLines_text sources (d := d) (by simp [ho])
    rw [ho] at hlines
    cases version <;> simp [Preamble.print, hlines, Origin.object]
  | builtin name =>
    have hlines := objectLines_text sources (d := d) (by simp [ho])
    rw [ho] at hlines
    simp [Preamble.print, hlines, Origin.object]
  | module file isComponent =>
    by_cases hf : file.isUnder sources
    · have hentries := module_entries sources ho
      have hobjects := module_objects sources ho
      simp only [hf, Bool.not_true, Bool.false_eq_true, if_false, if_true, Preamble.print,
        map_append, hobjects, Except.ok.injEq, Imports.mk.injEq, true_and, and_true]
      refine (map_alter (List.map (Bound.entry sources)) _ _ _ (fun o => ?_) p.modules).symm
      cases o <;> simp [hentries]
    · simp [hf, problem]

end Printing

def preambleLines (sources : Path) (needsRuntime : Bool) (ds : List Dependency) :
    Except Problem (List PreambleLine) :=
  match ds.findSome? (Dependency.misplaced? sources) with
  | some e => .error e
  | none => .ok ((ds.foldl (Preamble.add sources) .empty).lines needsRuntime)

def preambleText (sources : Path) (lines : List PreambleLine) : String :=
  String.intercalate "\n" (lines.map (·.text sources))

theorem lines_print (sources : Path) (p : Preamble) (needsRuntime : Bool) :
    (p.print sources).lines needsRuntime = (p.lines needsRuntime).map (·.text sources) := by
  have hfilter : (p.print sources).modules.filter (!·.2.isEmpty) =
      (p.modules.filter (!·.2.isEmpty)).map fun m => (m.1, m.2.map (Bound.entry sources)) := by
    simp [Preamble.print]
  rw [Imports.lines, hfilter]
  cases needsRuntime <;>
    simp [Preamble.print, Preamble.lines]

theorem importBindings_eq (ds : List Dependency) (sources : Path) (needsRuntime : Bool) :
    importBindings ds sources needsRuntime =
      (preambleLines sources needsRuntime ds).map (preambleText sources) := by
  have hfold := foldlM_of_faults (r := Preamble.print sources) (add_print sources) ds .empty
  unfold importBindings preambleLines
  rw [show Imports.empty = Preamble.print sources .empty from rfl, hfold]
  cases ds.findSome? (Dependency.misplaced? sources) with
  | some e => rfl
  | none => exact congrArg Except.ok (congrArg _ (lines_print sources _ needsRuntime))

section Bounds

variable {sources : Path} {b : Bound}

def Preamble.bounds (p : Preamble) : List Bound :=
  p.toolkit.flatMap PreambleLine.bounds ++ p.builtin.flatMap PreambleLine.bounds ++
    p.modules.flatMap Prod.snd ++ p.objects.flatMap PreambleLine.bounds

theorem lines_bounds (p : Preamble) (needsRuntime : Bool) :
    (p.lines needsRuntime).flatMap PreambleLine.bounds = p.bounds := by
  have hversions : (p.versions.map fun v => PreambleLine.version v.1 v.2).flatMap
      PreambleLine.bounds = [] := by
    simp [flatMap_map, PreambleLine.bounds]
  have hmodules : ((p.modules.filter (!·.2.isEmpty)).map fun m =>
      PreambleLine.named ("imports." ++ m.1) m.2).flatMap PreambleLine.bounds =
      p.modules.flatMap Prod.snd := by
    simp only [flatMap_map, PreambleLine.bounds]
    induction p.modules with
    | nil => rfl
    | cons m ms ih =>
      obtain ⟨name, bs⟩ := m
      cases bs with
      | nil => simpa using ih
      | cons b bs => simp [ih]
  have hruntime : (if needsRuntime then [PreambleLine.runtime] else []).flatMap
      PreambleLine.bounds = [] := by
    cases needsRuntime <;> rfl
  simp only [Preamble.lines, Preamble.bounds, flatMap_append, hversions, hruntime, hmodules,
    nil_append, append_nil]

theorem alter_perm {α : Type} (key : String) (new : List α) (l : List (String × List α)) :
    ((alter key (fun o => o.getD [] ++ new) l).flatMap Prod.snd).Perm
      (new ++ l.flatMap Prod.snd) := by
  induction l with
  | nil => simp [alter]
  | cons p l ih =>
    obtain ⟨k, v⟩ := p
    rw [alter]
    split
    · simp
    · split
      · simp only [Option.getD_some, flatMap_cons]
        rw [← append_assoc]
        exact perm_append_comm.append_right _
      · simp only [flatMap_cons]
        exact (ih.append_left v).trans (perm_append_comm_assoc v new _)

theorem objectLines_perm (sources : Path) (d : Dependency) :
    ((d.objectLines sources).flatMap PreambleLine.bounds).Perm d.bounds := by
  have hnamed : (if (d.bounds.filter (Bound.isNamed sources)).isEmpty then []
      else [PreambleLine.named (d.origin.object sources)
        (d.bounds.filter (Bound.isNamed sources))]).flatMap PreambleLine.bounds =
      d.bounds.filter (Bound.isNamed sources) := by
    split
    · rename_i he
      simp [List.isEmpty_iff.1 he]
    · simp [PreambleLine.bounds]
  rw [Dependency.objectLines, flatMap_append, hnamed, flatMap_map]
  simp only [PreambleLine.bounds, flatMap_singleton']
  exact perm_append_comm.trans (filter_append_perm _ d.bounds)

theorem add_bounds_perm (p : Preamble) (hd : d.misplaced? sources = none) :
    (p.add sources d).bounds.Perm (d.bounds ++ p.bounds) := by
  unfold Preamble.add Preamble.bounds
  unfold Dependency.misplaced? at hd
  cases ho : d.origin with
  | relative => simp [ho] at hd
  | toolkit name version | builtin name =>
    simp only [flatMap_append]
    exact perm_iff_count.2 fun b => by
      simp only [count_append, (objectLines_perm sources d).count_eq]
      omega
  | module file isComponent =>
    simp only [flatMap_append, flatMap_map, PreambleLine.bounds,
      flatMap_singleton']
    exact perm_iff_count.2 fun b => by
      have hsplit := (filter_append_perm (Bound.isNamed sources) d.bounds).count_eq b
      simp only [count_append, (alter_perm _ _ p.modules).count_eq] at hsplit ⊢
      omega

/-- The lines bind what the dependencies name, each time that one names it, and nothing else. -/
theorem preambleLines_perm {lines : List PreambleLine}
    (h : preambleLines sources needsRuntime ds = .ok lines) :
    (lines.flatMap PreambleLine.bounds).Perm (ds.flatMap Dependency.bounds) := by
  unfold preambleLines at h
  split at h
  · cases h
  · rename_i hnone
    cases h
    rw [lines_bounds]
    have hall : ∀ d ∈ ds, d.misplaced? sources = none := findSome?_eq_none_iff.1 hnone
    have hfold : ∀ p : Preamble, (ds.foldl (Preamble.add sources) p).bounds.Perm
        (ds.flatMap Dependency.bounds ++ p.bounds) := by
      clear hnone
      induction ds with
      | nil => simp
      | cons d ds ih =>
        intro p
        have hrest := ih (fun e he => hall e (mem_cons_of_mem _ he)) (p.add sources d)
        have hone := add_bounds_perm p (hall d mem_cons_self)
        rw [foldl_cons, flatMap_cons]
        refine hrest.trans ((hone.append_left _).trans ?_)
        rw [append_assoc]
        exact perm_append_comm_assoc _ _ _
    simpa [Preamble.empty, Preamble.bounds] using hfold .empty

theorem mem_preambleLines {lines : List PreambleLine}
    (h : preambleLines sources needsRuntime ds = .ok lines) :
    b ∈ lines.flatMap PreambleLine.bounds ↔ b ∈ ds.flatMap Dependency.bounds :=
  (preambleLines_perm h).mem_iff

structure Preamble.IsFaithful (sources : Path) (p : Preamble) : Prop where
  toolkit : ∀ l ∈ p.toolkit, l.IsFaithful sources
  builtin : ∀ l ∈ p.builtin, l.IsFaithful sources
  modules : ∀ m ∈ p.modules, ∀ b ∈ m.2, b.origin.object sources = "imports." ++ m.1
  objects : ∀ l ∈ p.objects, l.IsFaithful sources

theorem of_mem_bounds (h : b ∈ d.bounds) : b.origin = d.origin := by
  obtain ⟨s, -, rfl⟩ := mem_map.1 h
  rfl

theorem whole_isFaithful (h : l ∈ (d.bounds.filter (!·.isNamed sources)).map PreambleLine.whole) :
    l.IsFaithful sources := by
  obtain ⟨b, hb, rfl⟩ := mem_map.1 h
  have hnot := (mem_filter.1 hb).2
  simpa [Bound.isNamed, PreambleLine.IsFaithful] using hnot

theorem objectLines_isFaithful (h : l ∈ d.objectLines sources) : l.IsFaithful sources := by
  rcases mem_append.1 h with h | h
  · exact whole_isFaithful h
  · split at h
    · cases h
    · rename_i hne
      obtain rfl := mem_singleton.1 h
      refine ⟨by simpa using hne, fun b hb => ?_⟩
      rw [of_mem_bounds (mem_filter.1 hb).1]

theorem forall_alter {α : Type} {P : String → α → Prop} {key : String} {new : List α}
    {l : List (String × List α)} (hl : ∀ m ∈ l, ∀ a ∈ m.2, P m.1 a) (hnew : ∀ a ∈ new, P key a) :
    ∀ m ∈ alter key (fun o => o.getD [] ++ new) l, ∀ a ∈ m.2, P m.1 a := by
  induction l with
  | nil => simpa [alter] using hnew
  | cons p l ih =>
    obtain ⟨k, v⟩ := p
    have hv : ∀ a ∈ v, P k a := hl (k, v) mem_cons_self
    have hrest : ∀ m ∈ l, ∀ a ∈ m.2, P m.1 a := fun m hm => hl m (mem_cons_of_mem _ hm)
    rw [alter]
    split
    · intro m hm
      rcases mem_cons.1 hm with rfl | hm
      · simpa using hnew
      · exact hl m hm
    · split
      · rename_i heq
        subst heq
        intro m hm
        rcases mem_cons.1 hm with rfl | hm
        · intro a ha
          rcases mem_append.1 ha with ha | ha
          · exact hv a ha
          · exact hnew a ha
        · exact hrest m hm
      · intro m hm
        rcases mem_cons.1 hm with rfl | hm
        · exact hv
        · exact ih hrest m hm

theorem Preamble.IsFaithful.add (h : p.IsFaithful sources) (d : Dependency) :
    (p.add sources d).IsFaithful sources := by
  have happend {ls ms : List PreambleLine} (hl : ∀ l ∈ ls, l.IsFaithful sources)
      (hm : ∀ l ∈ ms, l.IsFaithful sources) : ∀ l ∈ ls ++ ms, l.IsFaithful sources := by
    intro l hlm
    rcases mem_append.1 hlm with hlm | hlm
    · exact hl l hlm
    · exact hm l hlm
  unfold Preamble.add
  cases ho : d.origin with
  | relative => exact h
  | toolkit name version =>
    exact ⟨happend h.toolkit fun l => objectLines_isFaithful, h.builtin, h.modules, h.objects⟩
  | builtin name =>
    exact ⟨h.toolkit, happend h.builtin fun l => objectLines_isFaithful, h.modules, h.objects⟩
  | module file isComponent =>
    refine ⟨h.toolkit, h.builtin, ?_, happend h.objects fun l => whole_isFaithful⟩
    refine forall_alter (P := fun x (b : Bound) => b.origin.object sources = "imports." ++ x)
      h.modules ?_
    intro b hb
    rw [of_mem_bounds (mem_filter.1 hb).1, ho]
    rfl

theorem Preamble.IsFaithful.lines (h : p.IsFaithful sources) (needsRuntime : Bool) :
    ∀ l ∈ p.lines needsRuntime, l.IsFaithful sources := by
  intro l hl
  simp only [Preamble.lines, mem_append] at hl
  rcases hl with ((((hl | hl) | hl) | hl) | hl) | hl
  · obtain ⟨v, -, rfl⟩ := mem_map.1 hl
    trivial
  · exact h.toolkit l hl
  · exact h.builtin l hl
  · split at hl
    · obtain rfl := mem_singleton.1 hl
      trivial
    · cases hl
  · obtain ⟨m, hm, rfl⟩ := mem_map.1 hl
    obtain ⟨hm, hne⟩ := mem_filter.1 hm
    exact ⟨by simpa using hne, h.modules m hm⟩
  · exact h.objects l hl

theorem preambleLines_isFaithful {lines : List PreambleLine}
    (h : preambleLines sources needsRuntime ds = .ok lines) :
    ∀ l ∈ lines, l.IsFaithful sources := by
  unfold preambleLines at h
  split at h
  · cases h
  · cases h
    have hempty : Preamble.empty.IsFaithful sources := by constructor <;> simp [Preamble.empty]
    have hfold : (ds.foldl (Preamble.add sources) .empty).IsFaithful sources :=
      foldlRecOn (motive := Preamble.IsFaithful sources) ds _ hempty fun p hp d _ => hp.add d
    exact hfold.lines needsRuntime

theorem reads_eq (h : l.IsFaithful sources) :
    l.reads sources = l.bounds.map fun b => (b.specifier.binding, b.access sources) := by
  cases l with
  | version => rfl
  | runtime => rfl
  | whole b =>
    have hb : b.property? sources = none := h
    simp [PreambleLine.reads, PreambleLine.bounds, Bound.access, hb]
  | named object bs =>
    apply map_congr_left
    intro b hb
    rw [Bound.access, h.2 b hb]

theorem mem_reads (h : l.IsFaithful sources) {x : String} {a : Access} :
    (x, a) ∈ l.reads sources ↔ ∃ b ∈ l.bounds, b.specifier.binding = x ∧ b.access sources = a := by
  simp [reads_eq h]

theorem mem_object? (h : l.IsFaithful sources) {o : String} :
    l.object? sources = some o ↔
      (∃ b ∈ l.bounds, b.origin.object sources = o) ∨ l = .runtime ∧ o = "imports.runtime" := by
  cases l with
  | version | whole b => simp [PreambleLine.object?, PreambleLine.bounds]
  | runtime => simp [PreambleLine.object?, PreambleLine.bounds, eq_comm]
  | named object bs =>
    simp only [PreambleLine.object?, PreambleLine.bounds, Option.some.injEq, reduceCtorEq,
      false_and, or_false]
    constructor
    · rintro rfl
      obtain ⟨b, hb⟩ := exists_mem_of_ne_nil bs h.1
      exact ⟨b, hb, h.2 b hb⟩
    · rintro ⟨b, hb, rfl⟩
      exact (h.2 b hb).symm

theorem preambleLines_ok_iff (needsRuntime : Bool) :
    (∃ lines, preambleLines sources needsRuntime ds = .ok lines) ↔
      ∀ d ∈ ds, d.misplaced? sources = none := by
  rw [← findSome?_eq_none_iff, preambleLines]
  cases ds.findSome? (Dependency.misplaced? sources) <;> simp

end Bounds

end WidgetCompiler
