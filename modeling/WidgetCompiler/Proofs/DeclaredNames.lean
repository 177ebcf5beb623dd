import WidgetCompiler.Proofs.ParsedScripts

namespace WidgetCompiler.Script

open List

mutual

/-- Something of the statement stays without its types. -/
def Stmt.stays : Stmt → Bool
  | .mk _ kind => kind.stays

def StmtKind.stays : StmtKind → Bool
  | .imports d => !d.isType
  | .exportNames d => !d.isType && (d.specifiers.isEmpty || d.specifiers.any (!·.isType))
  | .exportAll d => !d.isType
  | .exportDecl isType s => !isType && s.stays
  | .exportDefaultDecl s => s.stays
  | .namespace isAmbient _ body => !isAmbient && stmtsStay body
  | kind => !kind.isAmbient

def stmtsStay : List Stmt → Bool
  | [] => false
  | s :: rest => s.stays || stmtsStay rest

end

/-- The names that a statement declares. An enum or a namespace adds to the object that an earlier
statement has declared, and declares nothing then. -/
def StmtKind.declares (earlier : List String) : StmtKind → List String
  | .enum _ isAmbient x _ => if isAmbient || earlier.contains x then [] else [x]
  | .namespace isAmbient path body =>
    if isAmbient || !stmtsStay body then [] else path.head?.toList.filter (!earlier.contains ·)
  | .importRequire isType x _ => if isType then [] else [x]
  | .importAlias isType x _ => if isType then [] else [x]
  | .exportDefaultDecl (.mk _ kind) => kind.declares earlier
  | kind => if kind.isAmbient then [] else kind.lexicalNames

def Stmt.unwrapped : Stmt → Stmt
  | .mk _ (.exportDecl _ s) => s
  | s => s

def StmtKind.extendable : StmtKind → List String
  | .enum _ isAmbient x _ => if isAmbient then [] else [x]
  | .namespace isAmbient path _ => if isAmbient then [] else path.head?.toList
  | .func f => f.name.toList
  | .cls c => c.name.toList
  | _ => []

def declarations (earlier : List String) : List Stmt → List String
  | [] => []
  | s :: rest =>
    s.kind.declares earlier ++ declarations (s.unwrapped.kind.extendable ++ earlier) rest

theorem extend_declared (env : Erasure) (s : Stmt) :
    (s.extend env).declared = s.unwrapped.kind.extendable ++ env.declared := by
  obtain ⟨info, kind⟩ := s
  have hkind (k : StmtKind) : (k.extend env).declared = k.extendable ++ env.declared := by
    cases k with
    | enum _ isAmbient x members => cases isAmbient <;> rfl
    | «namespace» isAmbient path body => cases isAmbient <;> rfl
    | _ => rfl
  cases kind with
  | exportDecl isType s =>
    obtain ⟨_, k⟩ := s
    exact hkind k
  | _ => exact hkind _

def StmtKind.Kept : StmtKind → Prop
  | .imports _ => False
  | .exportNames _ => False
  | .exportDecl .. => False
  | kind => kind.Shaped

section Tracking

mutual

theorem Stmt.stays_track : ∀ (cells : Cells) (s : Stmt), (s.track cells).stays = s.stays
  | cells, .mk _ k => StmtKind.stays_track cells k

theorem StmtKind.stays_track (cells : Cells) (k : StmtKind) :
    (k.track cells).stays = k.stays := by
  cases k with
  | exportDecl isType s => exact congrArg (!isType && ·) (Stmt.stays_track cells s)
  | exportDefaultDecl s => exact Stmt.stays_track cells s
  | «namespace» isAmbient _ body =>
    exact congrArg (!isAmbient && ·) (stmtsStay_track cells body)
  | func f => cases f; rfl
  | cls c => cases c; rfl
  | _ => rfl

theorem stmtsStay_track :
    ∀ (cells : Cells) (body : List Stmt), stmtsStay (trackStmts cells body) = stmtsStay body
  | _, [] => rfl
  | cells, s :: rest => by
    rw [trackStmts, stmtsStay, stmtsStay, Stmt.stays_track cells s, stmtsStay_track cells rest]

end

theorem StmtKind.declares_track (cells : Cells) (earlier : List String) (k : StmtKind) :
    (k.track cells).declares earlier = k.declares earlier := by
  cases k with
  | exportDefaultDecl s =>
    obtain ⟨_, k⟩ := s
    exact StmtKind.declares_track cells earlier k
  | «namespace» isAmbient path body =>
    simp only [StmtKind.track, StmtKind.declares, stmtsStay_track]
  | vars isAmbient kind ds =>
    exact congrArg (fun names => if isAmbient then [] else names) (declaratorNames_track cells ds)
  | func f => cases f; rfl
  | cls c => cases c; rfl
  | _ => rfl

theorem StmtKind.extendable_track (cells : Cells) (k : StmtKind) :
    (k.track cells).extendable = k.extendable := by
  cases k with
  | func f => cases f; rfl
  | cls c => cases c; rfl
  | _ => rfl

theorem Stmt.unwrapped_track (cells : Cells) (s : Stmt) :
    (s.track cells).unwrapped = s.unwrapped.track cells := by
  obtain ⟨_, k⟩ := s
  cases k <;> rfl

theorem declarations_track (cells : Cells) (body : List Stmt) (earlier : List String) :
    declarations earlier (trackStmts cells body) = declarations earlier body := by
  induction body generalizing earlier with
  | nil => rfl
  | cons s rest ih =>
    have hkind (t : Stmt) : (t.track cells).kind = t.kind.track cells := by cases t; rfl
    rw [trackStmts, declarations, declarations, ih, hkind, Stmt.unwrapped_track, hkind,
      StmtKind.declares_track, StmtKind.extendable_track]

end Tracking

section Removal

variable {env : Erasure}

mutual

theorem Pattern.names_untyped : ∀ {p : Pattern}, p.isBinding → (p.untyped env).names = p.names
  | .name _, _ => rfl
  | .target _, h => by cases h
  | .object _, h => slotNames_untyped h
  | .array _, h => slotNames_untyped h

theorem Slot.names_untyped : ∀ {s : Slot}, s.isBinding → (s.untyped env).names = s.names
  | .prop _ _ _ _ _ _, h | .item _ _, h | .rest _ _, h => Pattern.names_untyped h
  | .hole, _ => rfl

theorem slotNames_untyped :
    ∀ {slots : List Slot}, slotsBind slots → slotNames (untypeSlots env slots) = slotNames slots
  | [], _ => rfl
  | s :: rest, h => by
    rw [slotsBind, Bool.and_eq_true] at h
    rw [untypeSlots, slotNames, slotNames, Slot.names_untyped h.1, slotNames_untyped h.2]

end

theorem declaratorNames_untyped {ds : List Declarator} (h : ∀ d ∈ ds, d.pattern.isBinding) :
    (untypeDeclarators env ds).flatMap Declarator.names = ds.flatMap Declarator.names := by
  induction ds with
  | nil => rfl
  | cons d rest ih =>
    obtain ⟨span, p, type, isDefinite, init⟩ := d
    obtain ⟨hp, hrest⟩ := forall_mem_cons.1 h
    rw [untypeDeclarators, flatMap_cons, flatMap_cons, ih hrest]
    exact congrArg (· ++ _) (Pattern.names_untyped hp)

theorem stmtsOf_isEmpty (info : StmtInfo) (kinds : List StmtKind) :
    (stmtsOf info kinds).isEmpty = kinds.isEmpty := by
  cases kinds <;> rfl

theorem publishAll_isEmpty (owner : String) (kinds : List StmtKind) :
    (publishAll owner kinds).isEmpty = kinds.isEmpty := by
  unfold publishAll
  split <;> rfl

theorem exportFirst_isEmpty (info : StmtInfo) (kinds : List StmtKind) :
    (exportFirst info kinds).isEmpty = kinds.isEmpty := by
  cases kinds <;> rfl

theorem namespacePath_isEmpty (env : Erasure) (parent : Option String) (path : List String)
    (body : List Stmt) : (namespacePath env parent path body).isEmpty = false := by
  unfold namespacePath namespaceStmts
  split <;> simp

theorem isComplete_and_not_isAmbient (f : Func) :
    (f.isComplete && !(StmtKind.func f).isAmbient) = !(StmtKind.func f).isAmbient := by
  obtain ⟨info, params, body⟩ := f
  rw [Func.isComplete, StmtKind.isAmbient]
  cases info.hasBody <;> cases info.isAmbient <;> rfl

theorem isEmpty_append {α : Type} (as bs : List α) :
    (as ++ bs).isEmpty = (as.isEmpty && bs.isEmpty) := by
  cases as <;> rfl

theorem ImportDecl.untyped_isEmpty (d : ImportDecl) : d.untyped.isEmpty = d.isType := by
  unfold ImportDecl.untyped
  cases d.isType with
  | true => rfl
  | false => cases d.clause <;> rfl

theorem ExportList.untyped_isEmpty (d : ExportList) :
    d.untyped.isEmpty = !(!d.isType && (d.specifiers.isEmpty || d.specifiers.any (!·.isType))) := by
  have hkept : (d.specifiers.filter (!·.isType)).isEmpty = !d.specifiers.any (!·.isType) := by
    rw [Bool.eq_iff_iff]
    simp
  unfold ExportList.untyped
  dsimp only
  rw [hkept]
  cases d.isType <;> cases d.specifiers.isEmpty <;> cases d.specifiers.any (!·.isType) <;> rfl

theorem Stmt.untypedExport_isEmpty (env : Erasure) (s : Stmt) :
    (s.untypedExport env).isEmpty = (s.kind.untyped env).isEmpty := by
  obtain ⟨info, k⟩ := s
  cases k with
  | enum _ isAmbient x members =>
    cases isAmbient with
    | true => rfl
    | false =>
      rw [Stmt.untypedExport]
      cases env.declared.contains x <;> rfl
  | _ => simp only [Stmt.untypedExport, Stmt.kind, exportFirst_isEmpty]

theorem Stmt.untypedPublished_isEmpty (env : Erasure) (owner : String) (s : Stmt) :
    (s.untypedPublished env owner).isEmpty = (s.kind.untyped env).isEmpty := by
  obtain ⟨info, k⟩ := s
  cases k with
  | «namespace» isAmbient path body =>
    cases isAmbient with
    | true => rfl
    | false =>
      rw [Stmt.untypedPublished, Stmt.kind, StmtKind.untyped]
      dsimp only
      cases (untypeModule env.inner (pathParameter env path) body).isEmpty with
      | true => rfl
      | false => exact (namespacePath_isEmpty ..).trans (namespacePath_isEmpty ..).symm
  | _ => simp only [Stmt.untypedPublished, Stmt.kind, publishAll_isEmpty]

theorem Stmt.untypedInModule_isEmpty (env : Erasure) (owner : String) (s : Stmt) :
    (s.untypedInModule env owner).isEmpty = (s.kind.untyped env).isEmpty := by
  obtain ⟨info, k⟩ := s
  cases k with
  | exportDecl isType s =>
    cases isType with
    | true => rfl
    | false =>
      calc (stmtsOf info (s.untypedPublished env owner)).isEmpty
        _ = (s.untypedPublished env owner).isEmpty := stmtsOf_isEmpty info _
        _ = (s.kind.untyped env).isEmpty := s.untypedPublished_isEmpty env owner
        _ = (s.untypedExport env).isEmpty := (s.untypedExport_isEmpty env).symm
  | _ => simp only [Stmt.untypedInModule, Stmt.kind, stmtsOf_isEmpty]

mutual

theorem StmtKind.untyped_isEmpty (env : Erasure) (k : StmtKind) :
    (k.untyped env).isEmpty = !k.stays := by
  cases k with
  | imports d => rw [StmtKind.untyped, StmtKind.stays, d.untyped_isEmpty, Bool.not_not]
  | exportNames d => exact d.untyped_isEmpty
  | exportAll d =>
    rw [StmtKind.untyped, StmtKind.stays]
    cases d.isType <;> rfl
  | exportDecl isType s =>
    obtain ⟨info, k⟩ := s
    cases isType with
    | true => rfl
    | false => exact (Stmt.untypedExport_isEmpty env _).trans (StmtKind.untyped_isEmpty env k)
  | exportDefaultDecl s =>
    obtain ⟨info, k⟩ := s
    rw [StmtKind.stays, Stmt.stays, ← StmtKind.untyped_isEmpty env k, StmtKind.untyped,
      Stmt.untypedDefault]
    cases k.untyped env <;> rfl
  | «namespace» isAmbient path body =>
    have h := untypeModule_isEmpty env.inner (pathParameter env path) body
    cases isAmbient with
    | true => rfl
    | false =>
      rw [StmtKind.untyped, StmtKind.stays]
      dsimp only
      rw [h]
      cases stmtsStay body with
      | true => exact namespacePath_isEmpty ..
      | false => rfl
  | func f =>
    change _ = !!(StmtKind.func f).isAmbient
    rw [StmtKind.untyped, isComplete_and_not_isAmbient]
    cases (StmtKind.func f).isAmbient <;> rfl
  | cls c =>
    change _ = !!(StmtKind.cls c).isAmbient
    rw [StmtKind.untyped]
    cases (StmtKind.cls c).isAmbient <;> rfl
  | vars isAmbient | enum _ isAmbient => cases isAmbient <;> rfl
  | importRequire isType | importAlias isType => cases isType <;> rfl
  | _ => rfl

theorem untypeModule_isEmpty :
    ∀ (env : Erasure) (owner : String) (body : List Stmt),
      (untypeModule env owner body).isEmpty = !stmtsStay body
  | _, _, [] => rfl
  | env, owner, .mk info k :: rest => by
    rw [untypeModule, stmtsStay, isEmpty_append, Stmt.untypedInModule_isEmpty, Stmt.kind,
      StmtKind.untyped_isEmpty env k, untypeModule_isEmpty _ owner rest, Bool.not_or, Stmt.stays]

end

/-- What is left of a statement that declares `names`. Only a namespace leaves two statements, the
second of which fills it. -/
inductive Leaves (names : List String) : List StmtKind → Prop
  | nothing (h : names = []) : Leaves names []
  | one {k : StmtKind} (h : ∀ earlier, k.declares earlier = names) : Leaves names [k]
  | filled {k : StmtKind} {e : Expr} (h : ∀ earlier, k.declares earlier = names) :
      Leaves names [k, .expr e]

theorem namespaceStmts_leaves (x param : String) (body : List Stmt) :
    Leaves ([x].filter (!env.declared.contains ·)) (namespaceStmts env none x param body) := by
  unfold namespaceStmts
  rw [filter_cons, filter_nil]
  cases env.declared.contains x
  · exact .filled fun _ => rfl
  · exact .one fun _ => rfl

theorem namespacePath_leaves (path : List String) (body : List Stmt) :
    Leaves (path.head?.toList.filter (!env.declared.contains ·))
      (namespacePath env none path body) := by
  match path with
  | [] => exact .one fun _ => rfl
  | [x] => exact namespaceStmts_leaves x _ _
  | x :: _ :: _ => exact namespaceStmts_leaves x _ _

theorem leaves_default {names : List String} {info : StmtInfo} {k : StmtKind}
    (h : Leaves names (k.untyped env)) :
    Leaves names ((Stmt.mk info k).untypedDefault env) := by
  rw [Stmt.untypedDefault]
  generalize k.untyped env = kinds at h
  cases h with
  | nothing h => exact .nothing h
  | one h => exact .one h
  | filled h => exact .one h

theorem StmtKind.DeclaresNames.untyped_leaves {k : StmtKind} (h : k.DeclaresNames) :
    Leaves (k.declares env.declared) (k.untyped env) := by
  cases k with
  | vars isAmbient kind ds =>
    cases isAmbient with
    | true => exact .nothing rfl
    | false => exact .one fun _ => declaratorNames_untyped h
  | func f =>
    rw [StmtKind.untyped, isComplete_and_not_isAmbient]
    cases hf : (StmtKind.func f).isAmbient with
    | true => exact .nothing (if_pos hf)
    | false =>
      obtain ⟨info, params, body⟩ := f
      exact .one fun _ => rfl
  | cls c =>
    rw [StmtKind.untyped]
    cases hc : (StmtKind.cls c).isAmbient with
    | true => exact .nothing (if_pos hc)
    | false =>
      obtain ⟨info, superclass, members⟩ := c
      exact .one fun _ => rfl
  | enum _ isAmbient x members =>
    cases isAmbient with
    | true => exact .nothing rfl
    | false =>
      refine .one fun earlier => ?_
      unfold enumStmt
      change _ = if env.declared.contains x then [] else [x]
      cases env.declared.contains x <;> rfl
  | «namespace» isAmbient path body =>
    cases isAmbient with
    | true => exact .nothing rfl
    | false =>
      have hbody := untypeModule_isEmpty env.inner (pathParameter env path) body
      rw [StmtKind.declares, StmtKind.untyped]
      dsimp only
      rw [hbody]
      cases stmtsStay body with
      | true => exact namespacePath_leaves path _
      | false => exact .nothing rfl
  | importRequire isType x source | importAlias isType x path =>
    cases isType with
    | true => exact .nothing rfl
    | false => exact .one fun _ => rfl
  | typeOnly text => exact .nothing rfl
  | _ => cases h

theorem StmtKind.Kept.untyped_leaves {k : StmtKind} (h : k.Kept) :
    Leaves (k.declares env.declared) (k.untyped env) := by
  cases k with
  | exportDefaultDecl s =>
    obtain ⟨info, k⟩ := s
    exact leaves_default (StmtKind.DeclaresNames.untyped_leaves h)
  | imports d => cases h
  | exportNames d => cases h
  | exportDecl isType s => cases h
  | exportAll d =>
    rw [StmtKind.untyped]
    cases d.isType with
    | true => exact .nothing rfl
    | false => exact .one fun _ => rfl
  | exportNamespace name => exact .nothing rfl
  | vars _ _ _ | func _ | cls _ | enum _ _ _ _ | «namespace» _ _ _ | importRequire _ _ _
  | importAlias _ _ _ | typeOnly _ =>
    exact StmtKind.DeclaresNames.untyped_leaves (StmtKind.Shaped.declaresNames h rfl)
  | _ => exact .one fun _ => rfl

theorem declarations_append (as bs : List Stmt) (earlier : List String) :
    declarations earlier (as ++ bs) = declarations earlier as ++
      declarations (as.foldl (fun earlier s => s.unwrapped.kind.extendable ++ earlier) earlier)
        bs := by
  induction as generalizing earlier with
  | nil => rfl
  | cons s rest ih =>
    simp only [cons_append, declarations, ih, append_assoc, foldl_cons]

theorem Leaves.declarations {names : List String} {kinds : List StmtKind} (h : Leaves names kinds)
    (info : StmtInfo) (earlier : List String) :
    declarations earlier (stmtsOf info kinds) = names := by
  cases h with
  | nothing h => exact h.symm
  | one h => simp [stmtsOf, Script.declarations, Stmt.kind, h]
  | filled h =>
    simp [stmtsOf, Script.declarations, plainStmt, Stmt.kind, h, StmtKind.declares,
      StmtKind.isAmbient, StmtKind.lexicalNames]

theorem declarations_untyped {body : List Stmt} (h : ∀ s ∈ body, s.kind.Kept)
    (env : Erasure) (earlier : List String) :
    declarations earlier (untypeStmts env body) = declarations env.declared body := by
  induction body generalizing env earlier with
  | nil => rfl
  | cons s rest ih =>
    obtain ⟨hs, hrest⟩ := forall_mem_cons.1 h
    have hleft : declarations earlier (s.untyped env) = s.kind.declares env.declared := by
      obtain ⟨info, k⟩ := s
      exact (StmtKind.Kept.untyped_leaves hs).declarations info earlier
    rw [untypeStmts, declarations_append, hleft, ih hrest, extend_declared, declarations]

theorem declarations_keepModule (before after : List Stmt) (earlier : List String) :
    declarations earlier (keepModule before after) = declarations earlier after := by
  unfold keepModule
  dsimp only
  split
  · rw [declarations_append]
    exact append_nil _
  · rfl

end Removal

end WidgetCompiler.Script
