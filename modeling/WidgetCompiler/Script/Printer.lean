import WidgetCompiler.Script.Literal
import WidgetCompiler.Script.Tree

namespace WidgetCompiler.Script

inductive Level
  | lowest | comma | spread | yield | assign | conditional | coalesce | or | and | bitOr | bitXor
  | bitAnd | equals | compare | shift | add | multiply | power | prefix_ | postfix_ | new | call
  | member
deriving DecidableEq

def Level.rank : Level → Nat
  | .lowest => 0
  | .comma => 1
  | .spread => 2
  | .yield => 3
  | .assign => 4
  | .conditional => 5
  | .coalesce => 6
  | .or => 7
  | .and => 8
  | .bitOr => 9
  | .bitXor => 10
  | .bitAnd => 11
  | .equals => 12
  | .compare => 13
  | .shift => 14
  | .add => 15
  | .multiply => 16
  | .power => 17
  | .prefix_ => 18
  | .postfix_ => 19
  | .new => 20
  | .call => 21
  | .member => 22

inductive Start
  | nothing | statement | arrowBody | defaultExport
deriving DecidableEq

structure Place where
  depth : Nat
  start : Start
  /-- An operator `in` needs parentheses. -/
  noIn : Bool
  /-- A call needs parentheses. -/
  noCall : Bool

def Place.at (depth : Nat) : Place :=
  ⟨depth, .nothing, false, false⟩

def Place.later (m : Place) : Place :=
  { m with start := .nothing, noCall := false }

def Place.inside (m : Place) : Place :=
  .at m.depth

def Place.wrapped (m : Place) (wraps : Bool) : Place :=
  if wraps then m.inside else m

def tabs (depth : Nat) : String :=
  String.ofList (List.replicate depth '\t')

def wrap (wraps : Bool) (s : String) : String :=
  if wraps then "(" ++ s ++ ")" else s

def TypeText.render (depth : Nat) : TypeText → String
  | [] => ""
  | .text s :: rest => s ++ TypeText.render depth rest
  | .newline :: rest => "\n" ++ tabs depth ++ TypeText.render depth rest
  | .indent :: rest => TypeText.render (depth + 1) rest
  | .dedent :: rest => TypeText.render (depth - 1) rest

def optionalType (depth : Nat) (t : Option TypeText) : String :=
  match t with
  | some t => t.render depth
  | none => ""

def typeAnnotation (depth : Nat) (t : Option TypeText) : String :=
  match t with
  | some t => ": " ++ t.render depth
  | none => ""

def UnaryOp.text : UnaryOp → String
  | .neg => "-"
  | .plus => "+"
  | .not => "!"
  | .bitNot => "~"
  | .typeof => "typeof"
  | .void => "void"
  | .delete => "delete"

def UnaryOp.isWord : UnaryOp → Bool
  | .typeof => true
  | .void => true
  | .delete => true
  | _ => false

def BinaryOp.text : BinaryOp → String
  | .add => "+"
  | .sub => "-"
  | .mul => "*"
  | .div => "/"
  | .rem => "%"
  | .pow => "**"
  | .shl => "<<"
  | .shr => ">>"
  | .ushr => ">>>"
  | .bitAnd => "&"
  | .bitOr => "|"
  | .bitXor => "^"
  | .eq => "=="
  | .ne => "!="
  | .strictEq => "==="
  | .strictNe => "!=="
  | .lt => "<"
  | .le => "<="
  | .gt => ">"
  | .ge => ">="
  | .instanceOf => "instanceof"
  | .isIn => "in"

def BinaryOp.level : BinaryOp → Level
  | .add => .add
  | .sub => .add
  | .mul => .multiply
  | .div => .multiply
  | .rem => .multiply
  | .pow => .power
  | .shl => .shift
  | .shr => .shift
  | .ushr => .shift
  | .bitAnd => .bitAnd
  | .bitOr => .bitOr
  | .bitXor => .bitXor
  | .eq => .equals
  | .ne => .equals
  | .strictEq => .equals
  | .strictNe => .equals
  | _ => .compare

def BinaryOp.lower (op : BinaryOp) : Level :=
  match op.level with
  | .add => .shift
  | .multiply => .add
  | .power => .multiply
  | .shift => .compare
  | .bitAnd => .bitXor
  | .bitOr => .and
  | .bitXor => .bitOr
  | .equals => .bitAnd
  | _ => .equals

def LogicalOp.text : LogicalOp → String
  | .and => "&&"
  | .or => "||"
  | .coalesce => "??"

def LogicalOp.level : LogicalOp → Level
  | .and => .and
  | .or => .or
  | .coalesce => .coalesce

def LogicalOp.lower : LogicalOp → Level
  | .and => .or
  | .or => .coalesce
  | .coalesce => .conditional

def AssignOp.text : AssignOp → String
  | .plain => "="
  | .binary op => op.text ++ "="
  | .logical op => op.text ++ "="

def UpdateOp.text : UpdateOp → String
  | .increment => "++"
  | .decrement => "--"

def VarKind.text : VarKind → String
  | .var => "var"
  | .let_ => "let"
  | .const => "const"
  | .using => "using"
  | .awaitUsing => "await using"

def Expr.withoutParens : Expr → Expr
  | .paren e => e.withoutParens
  | e => e

def Expr.isPlainNumber (e : Expr) : Bool :=
  match e.withoutParens with
  | .num n => needsSpaceBeforeDot (numberText n)
  | _ => false

def Expr.isUnaryOrAwait (e : Expr) : Bool :=
  match e.withoutParens with
  | .unary .. => true
  | .await _ => true
  | _ => false

def Expr.mixesWithCoalesce (e : Expr) : Bool :=
  match e.withoutParens with
  | .logical op _ _ => op != .coalesce
  | _ => false

def Pattern.isObject : Pattern → Bool
  | .object _ => true
  | _ => false

def joinSign (op operand : String) : String :=
  match op.toList, operand.toList with
  | [a], b :: _ => if a = b && (a = '-' || a = '+') then op ++ " " ++ operand else op ++ operand
  | _, _ => op ++ operand

def escapeClosings (previous : Option Nat) : List Char → List Char
  | [] => []
  | c :: rest =>
    (if closesScript previous c.toNat (rest.map Char.toNat |>.take 6) then ['\\', c] else [c]) ++
      escapeClosings (some c.toNat) rest

def templateText (raw : String) : String :=
  String.ofList (escapeClosings none raw.toList)

def weave : List String → List String → String
  | q :: quasis, h :: holes => templateText q ++ "$\x7b" ++ h ++ "\x7d" ++ weave quasis holes
  | q :: quasis, [] => templateText q ++ weave quasis []
  | [], _ => ""

def bracketed (opening closing pad : String) (depth : Nat) (spreads : Bool)
    (entries : List String) : String :=
  if spreads then
    opening ++ "\n" ++ tabs (depth + 1) ++
      String.intercalate (",\n" ++ tabs (depth + 1)) entries ++ "\n" ++ tabs depth ++ closing
  else if entries.isEmpty then opening ++ closing
  else opening ++ pad ++ String.intercalate ", " entries ++ pad ++ closing

def curly (depth : Nat) (content : String) : String :=
  if content.isEmpty then "\x7b\x7d" else "\x7b\n" ++ content ++ tabs depth ++ "\x7d"

def Key.sameName (key : Key) (x : String) : Bool :=
  match key with
  | .ident y => x == y
  | _ => false

def commentText (depth : Nat) (c : Comment) : String :=
  if c.isLine then c.text
  else
    match Text.lines c.text.toList with
    | [] => c.text
    | first :: rest =>
      String.ofList first ++
        String.join (rest.map fun l => "\n" ++ tabs depth ++ String.ofList (Text.trimStart l))

def Comment.endsLine (c : Comment) : Bool :=
  c.isLine || c.newlineAfter

def commentsText (depth : Nat) : List Comment → String
  | [] => ""
  | c :: rest =>
    commentText depth c ++ (if c.endsLine then "\n" ++ tabs depth else " ") ++
      commentsText depth rest

def leadText (depth : Nat) (lead : List Comment) : String :=
  tabs depth ++ commentsText depth lead

def trailingText : List Comment → String
  | [] => ""
  | [c] => commentText 0 c ++ if c.endsLine then "\n" else ""
  | c :: rest => commentText 0 c ++ (if c.endsLine then "\n" else " ") ++ trailingText rest

def directiveQuote : List Char → Char
  | [] => Char.ofNat 34
  | '\\' :: _ :: rest => directiveQuote rest
  | c :: rest =>
    if c = Char.ofNat 34 then Char.ofNat 39
    else if c = Char.ofNat 39 then Char.ofNat 34
    else directiveQuote rest

def Directive.print (depth : Nat) (d : Directive) : String :=
  let q := String.singleton (directiveQuote d.raw.toList)
  leadText depth d.lead ++ q ++ d.raw ++ q ++ ";\n"

def ModuleName.print (x : ModuleName) : String :=
  if x.quoted then Script.quoted x.text else x.text

def attributesText (attributes : List (ModuleName × String)) : String :=
  if attributes.isEmpty then ""
  else
    " with \x7b " ++
      String.intercalate ", " (attributes.map fun (k, v) => k.print ++ ": " ++ quoted v) ++ " \x7d"

def typeMark (isType : Bool) : String :=
  if isType then "type " else ""

def ImportSpecifier.print : ImportSpecifier → String
  | .default x => x
  | .namespace x => "* as " ++ x
  | .named isType imported x =>
    typeMark isType ++
      (if imported.text == x && !imported.quoted then x else imported.print ++ " as " ++ x)

def ImportSpecifier.isNamed : ImportSpecifier → Bool
  | .named .. => true
  | _ => false

def ImportDecl.print (d : ImportDecl) : String :=
  let clause := match d.clause with
    | none => ""
    | some [] => "\x7b\x7d from "
    | some specifiers =>
      let plain := (specifiers.filter (!·.isNamed)).map ImportSpecifier.print
      let named := (specifiers.filter (·.isNamed)).map ImportSpecifier.print
      let braces := if named.isEmpty then []
        else ["\x7b " ++ String.intercalate ", " named ++ " \x7d"]
      String.intercalate ", " (plain ++ braces) ++ " from "
  "import " ++ typeMark d.isType ++ clause ++ quoted d.source ++ attributesText d.attributes ++
    ";\n"

def ExportSpecifier.print (s : ExportSpecifier) : String :=
  typeMark s.isType ++
    (if s.name == s.exported then s.name.print else s.name.print ++ " as " ++ s.exported.print)

def sourceText (source : Option String) : String :=
  match source with
  | some s => " from " ++ quoted s
  | none => ""

def ExportList.print (d : ExportList) : String :=
  "export " ++ typeMark d.isType ++
    bracketed "\x7b" "\x7d" " " 0 false (d.specifiers.map ExportSpecifier.print) ++
    sourceText d.source ++ attributesText d.attributes ++ ";\n"

def ExportAll.print (d : ExportAll) : String :=
  let exported := match d.exported with
    | some x => " as " ++ x.print
    | none => ""
  "export " ++ typeMark d.isType ++ "*" ++ exported ++ " from " ++ quoted d.source ++
    attributesText d.attributes ++ ";\n"

def labelText (label : Option String) : String :=
  match label with
  | some x => " " ++ x
  | none => ""

mutual

/-- Would an `else` after this statement belong to an `if` inside it? -/
def Stmt.endsInIf : Stmt → Bool
  | .mk _ kind => kind.endsInIf

def StmtKind.endsInIf : StmtKind → Bool
  | .ifElse _ _ e => elseEndsInIf e
  | .forLoop _ _ _ s => s.endsInIf
  | .forIn _ _ s => s.endsInIf
  | .forOf _ _ _ s => s.endsInIf
  | .whileLoop _ s => s.endsInIf
  | .withObject _ s => s.endsInIf
  | .labeled _ s => s.endsInIf
  | _ => false

def elseEndsInIf : Option Stmt → Bool
  | some s => s.endsInIf
  | none => true

end

def Expr.isString : Expr → Bool
  | .str _ => true
  | .units _ => true
  | .paren e => e.isString
  | _ => false

def methodWord : MethodKind → String
  | .getter => "get "
  | .setter => "set "
  | _ => ""

def funcWord (info : FuncInfo) : String :=
  (if info.isAmbient then "declare " else "") ++ (if info.isAsync then "async " else "") ++
    "function" ++ (if info.isGenerator then "* " else "") ++
    match info.name with
    | some x => (if info.isGenerator then "" else " ") ++ x
    | none => ""

def methodMark (info : FuncInfo) : String :=
  (if info.isAsync then "async " else "") ++ (if info.isGenerator then "*" else "")

def memberWords (info : MemberInfo) : String :=
  (if info.isAmbient then "declare " else "") ++
    (match info.access with
      | some a => a ++ " "
      | none => "") ++
    (if info.isAbstract then "abstract " else "") ++
    (if info.isStatic then "static " else "") ++
    (if info.isOverride then "override " else "") ++
    (if info.isReadonly then "readonly " else "") ++
    (if info.isAccessor then "accessor " else "")

def paramsText (depth : Nat) (thisType : Option TypeText) (params : List String) : String :=
  let this := match thisType with
    | some t => ["this: " ++ t.render depth]
    | none => []
  "(" ++ String.intercalate ", " (this ++ params) ++ ")"

def bodyText (depth : Nat) (directives : List Directive) (body : String) : String :=
  curly depth (String.join (directives.map (Directive.print (depth + 1))) ++ body)

mutual

def Expr.print (m : Place) (level : Level) : Expr → String
  | .name x => x
  | .this => "this"
  | .super => "super"
  | .null => "null"
  | .bool b => if b then "true" else "false"
  | .num n => String.ofList (numberText n)
  | .bigint digits => digits ++ "n"
  | .str s => quoted s
  | .units codes => quotedCodes codes
  | .regex pattern flags => "/" ++ pattern ++ "/" ++ flags
  | .template quasis holes =>
    "\x60" ++ weave quasis (printHoles m.depth holes) ++
      "\x60"
  | .tagged tag types quasis holes =>
    tag.print { m with noIn := false, noCall := false } .postfix_ ++ optionalType m.depth types ++
      "\x60" ++ weave quasis (printHoles m.depth holes) ++
      "\x60"
  | .array items =>
    let spreads := decide (items.length > 2)
    bracketed "[" "]" "" m.depth spreads
      (printElements (if spreads then m.depth + 1 else m.depth) items)
  | .object fields =>
    let spreads := decide (fields.length > 1)
    wrap (m.start = .statement || m.start = .arrowBody)
      (bracketed "\x7b" "\x7d" " " m.depth spreads
        (printFields (if spreads then m.depth + 1 else m.depth) fields))
  | .func inParens f =>
    wrap (inParens || m.start = .statement || m.start = .defaultExport) (f.print m.depth)
  | .arrow info params body =>
    wrap (decide (Level.assign.rank ≤ level.rank) || info.inParens)
      ((if info.isAsync then "async " else "") ++ optionalType m.depth info.generics ++
        paramsText m.depth none (printParamList m.depth params) ++
        typeAnnotation m.depth info.returns ++ " => " ++
        bodyText m.depth info.directives (printHead (m.depth + 1) info.directives.isEmpty body))
  | .arrowExpr info params body =>
    wrap (decide (Level.assign.rank ≤ level.rank) || info.inParens)
      ((if info.isAsync then "async " else "") ++ optionalType m.depth info.generics ++
        paramsText m.depth none (printParamList m.depth params) ++
        typeAnnotation m.depth info.returns ++ " => " ++
        body.print { m with start := .arrowBody, noCall := false } .comma)
  | .cls c => wrap (m.start = .statement || m.start = .defaultExport) (c.print m.depth)
  | .unary op e =>
    let wraps := decide (Level.prefix_.rank ≤ level.rank)
    let operand := e.print (m.wrapped wraps).later .power
    wrap wraps (if op.isWord then op.text ++ " " ++ operand else joinSign op.text operand)
  | .update op isPre target =>
    let own : Level := if isPre then .prefix_ else .postfix_
    let wraps := decide (own.rank ≤ level.rank)
    wrap wraps <|
      if isPre then joinSign op.text (target.printTarget (m.wrapped wraps).later .prefix_)
      else target.printTarget (m.wrapped wraps) .postfix_ ++ op.text
  | .binary op l r =>
    let wraps := decide (op.level.rank ≤ level.rank) || (op = .isIn && m.noIn)
    let m := m.wrapped wraps
    let left : Level := if op = .pow then (if l.isUnaryOrAwait then .call else op.level)
      else op.lower
    let right : Level := if op = .pow then op.lower else op.level
    wrap wraps (l.print m left ++ " " ++ op.text ++ " " ++ r.print m.later right)
  | .logical op l r =>
    let wraps := decide (op.level.rank ≤ level.rank)
    let m := m.wrapped wraps
    let left : Level := if op = .coalesce && l.mixesWithCoalesce then .prefix_ else op.lower
    let right : Level := if op = .coalesce && r.mixesWithCoalesce then .prefix_
      else if op = .and then op.lower else op.level
    wrap wraps (l.print m left ++ " " ++ op.text ++ " " ++ r.print m.later right)
  | .privateIn x e =>
    let wraps := decide (Level.compare.rank ≤ level.rank) || m.noIn
    wrap wraps ("#" ++ x ++ " in " ++ e.print (m.wrapped wraps).later .equals)
  | .assign op target value =>
    let wraps := decide (Level.assign.rank ≤ level.rank) ||
      (target.isObject && (m.start = .statement || m.start = .arrowBody))
    let m := m.wrapped wraps
    wrap wraps (target.printTarget m .comma ++ " " ++ op.text ++ " " ++ value.print m.later .comma)
  | .cond c t e =>
    let wraps := decide (Level.conditional.rank ≤ level.rank)
    let m := m.wrapped wraps
    wrap wraps (c.print m .conditional ++ " ? " ++ t.print m.inside .yield ++ " : " ++
      e.print m.later .yield)
  | .call callee types args optional =>
    let wraps := decide (Level.new.rank ≤ level.rank) || m.noCall
    let m := m.wrapped wraps
    wrap wraps (callee.print { m with noIn := false, noCall := false } .postfix_ ++
      (if optional then "?." else "") ++ optionalType m.depth types ++ "(" ++
      String.intercalate ", " (printItems m.depth args) ++ ")")
  | .new callee types args =>
    let wraps := decide (Level.member.rank ≤ level.rank)
    wrap wraps ("new " ++ callee.print ⟨m.depth, .nothing, false, true⟩ .new ++
      optionalType m.depth types ++ "(" ++ String.intercalate ", " (printItems m.depth args) ++ ")")
  | .member base x optional =>
    base.print { m with noIn := false } .postfix_ ++
      (if optional then "?" else if base.isPlainNumber then " " else "") ++ "." ++ x
  | .index base key optional =>
    base.print { m with noIn := false } .postfix_ ++ (if optional then "?." else "") ++ "[" ++
      key.print m.inside .lowest ++ "]"
  | .privateMember base x optional =>
    base.print { m with noIn := false } .postfix_ ++ (if optional then "?" else "") ++ ".#" ++ x
  | .chain e =>
    let wraps := decide (Level.postfix_.rank ≤ level.rank)
    wrap wraps (e.print (m.wrapped wraps) .lowest)
  | .seq es =>
    let wraps := decide (Level.comma.rank ≤ level.rank)
    wrap wraps (printSequence (m.wrapped wraps) es)
  | .paren e => e.print m level
  | .await e =>
    let wraps := decide (Level.prefix_.rank ≤ level.rank)
    wrap wraps ("await " ++ e.print (m.wrapped wraps).later .power)
  | .yield delegate e =>
    wrap (decide (Level.yield.rank ≤ level.rank))
      ("yield" ++ (if delegate then "*" else "") ++ printYielded m.depth e)
  | .importCall source options =>
    wrap (decide (Level.new.rank ≤ level.rank) || m.noCall)
      ("import(" ++ source.print m.inside .comma ++ printSecond m.depth options ++ ")")
  | .metaProp base x => base ++ "." ++ x
  | .asType e type =>
    let wraps := decide (Level.shift.rank ≤ level.rank)
    wrap wraps (e.print (m.wrapped wraps) .power ++ " as " ++ type.render m.depth)
  | .satisfies e type =>
    let wraps := decide (Level.shift.rank ≤ level.rank)
    wrap wraps (e.print (m.wrapped wraps) .power ++ " satisfies " ++ type.render m.depth)
  | .nonNull e => e.print m .postfix_ ++ "!"
  | .assertType type e =>
    let wraps := decide (Level.prefix_.rank ≤ level.rank)
    wrap wraps ("<" ++ type.render m.depth ++ ">" ++ e.print (m.wrapped wraps).later .member)
  | .instantiate e types => e.print m .postfix_ ++ types.render m.depth
  | .marked e =>
    let wraps := decide (Level.postfix_.rank ≤ level.rank)
    wrap wraps ("/* @__PURE__ */ " ++ e.print (m.wrapped wraps).later .lowest)

def printHoles (depth : Nat) : List Expr → List String
  | [] => []
  | e :: rest => e.print (.at depth) .lowest :: printHoles depth rest

def printSequence (m : Place) : List Expr → String
  | [] => ""
  | [e] => e.print m .lowest
  | e :: rest => e.print m .lowest ++ ", " ++ printSequence m.later rest

def printYielded (depth : Nat) : Option Expr → String
  | some e => " " ++ e.print (.at depth) .yield
  | none => ""

def printSecond (depth : Nat) : Option Expr → String
  | some e => ", " ++ e.print (.at depth) .comma
  | none => ""

def Item.print (depth : Nat) : Item → String
  | .expr _ e => e.print (.at depth) .comma
  | .spread _ e => "..." ++ e.print (.at depth) .comma
  | .hole => ""

def printItems (depth : Nat) : List Item → List String
  | [] => []
  | i :: rest => i.print depth :: printItems depth rest

def printElements (depth : Nat) : List Item → List String
  | [] => []
  | [.hole] => [","]
  | i :: rest => i.print depth :: printElements depth rest

def Property.print (depth : Nat) : Property → String
  | .field key shorthand value =>
    let text := value.print (.at depth) .comma
    let isShort := shorthand || match value.withoutParens with
      | .name x => key.sameName x && x != "__proto__"
      | _ => false
    if isShort then text else key.print depth ++ ": " ++ text
  | .method kind key f => methodWord kind ++ f.printMark ++ key.print depth ++ f.printTail depth
  | .spread e => "..." ++ e.print (.at depth) .comma

def printFields (depth : Nat) : List Property → List String
  | [] => []
  | p :: rest => p.print depth :: printFields depth rest

def Key.print (depth : Nat) : Key → String
  | .ident x => x
  | .str s => quoted s
  | .num n => String.ofList (numberText n)
  | .bigint digits => digits ++ "n"
  | .hidden x => "#" ++ x
  | .computed e => "[" ++ e.print (.at depth) .comma ++ "]"

def Func.printMark : Func → String
  | .mk info _ _ => methodMark info

def Func.printTail (depth : Nat) : Func → String
  | .mk info params body =>
    let head := optionalType depth info.generics ++
      paramsText depth info.thisType (printParamList depth params) ++
      typeAnnotation depth info.returns
    let body := printHead (depth + 1) info.directives.isEmpty body
    head ++ if info.hasBody then " " ++ bodyText depth info.directives body else ";"

def Func.print (depth : Nat) : Func → String
  | .mk info params body =>
    let head := funcWord info ++ optionalType depth info.generics ++
      paramsText depth info.thisType (printParamList depth params) ++
      typeAnnotation depth info.returns
    let body := printHead (depth + 1) info.directives.isEmpty body
    head ++ if info.hasBody then " " ++ bodyText depth info.directives body else ";"

def Param.print (depth : Nat) : Param → String
  | .mk info p default =>
    String.join (info.modifiers.map (· ++ " ")) ++ (if info.isRest then "..." else "") ++
      p.print depth ++ (if info.isOptional then "?" else "") ++ typeAnnotation depth info.type ++
      printDefault depth default

def printDefault (depth : Nat) : Option Expr → String
  | some e => " = " ++ e.print (.at depth) .comma
  | none => ""

def printParamList (depth : Nat) : List Param → List String
  | [] => []
  | p :: rest => p.print depth :: printParamList depth rest

def Pattern.print (depth : Nat) : Pattern → String
  | .name x => x
  | .target e => e.print (.at depth) .comma
  | .object slots => bracketed "\x7b" "\x7d" " " depth false (printSlots depth slots)
  | .array slots => "[" ++ printArraySlots depth true slots ++ "]"

def Slot.print (depth : Nat) : Slot → String
  | .prop _ key shorthand p default _ =>
    let isShort := shorthand || match p with
      | .name x => key.sameName x
      | _ => false
    (if isShort then "" else key.print depth ++ ": ") ++ p.print depth ++
      printDefault depth default
  | .item p default => p.print depth ++ printDefault depth default
  | .rest _ p => "..." ++ p.print depth
  | .hole => ""

def printSlots (depth : Nat) : List Slot → List String
  | [] => []
  | s :: rest => s.print depth :: printSlots depth rest

/-- The slots of an array pattern. A rest element has a space before it even when it is alone. -/
def printArraySlots (depth : Nat) (isFirst : Bool) : List Slot → String
  | [] => ""
  | [.hole] => (if isFirst then "" else " ") ++ ","
  | [.rest _ p] => " ..." ++ p.print depth
  | [s] => (if isFirst then "" else " ") ++ s.print depth
  | s :: rest =>
    (if isFirst then "" else " ") ++ s.print depth ++ "," ++ printArraySlots depth false rest

def Pattern.printTarget (m : Place) (level : Level) : Pattern → String
  | .name x => x
  | .target e => e.print m level
  | .object slots => bracketed "\x7b" "\x7d" "" m.depth false (printTargetSlots m.depth slots)
  | .array slots => "[" ++ String.intercalate ", " (printTargetSlots m.depth slots) ++ "]"

def Slot.printTarget (depth : Nat) : Slot → String
  | .prop _ key shorthand p default _ =>
    (if shorthand then "" else key.print depth ++ ": ") ++ p.printTarget (.at depth) .comma ++
      printDefault depth default
  | .item p default => p.printTarget (.at depth) .comma ++ printDefault depth default
  | .rest _ p => "..." ++ p.printTarget (.at depth) .comma
  | .hole => ""

def printTargetSlots (depth : Nat) : List Slot → List String
  | [] => []
  | [.hole] => [","]
  | s :: rest => s.printTarget depth :: printTargetSlots depth rest

def Declarator.print (m : Place) : Declarator → String
  | .mk _ p type isDefinite init =>
    p.print m.depth ++ (if isDefinite then "!" else "") ++ typeAnnotation m.depth type ++
      printInit m init

def printInit (m : Place) : Option Expr → String
  | some e => " = " ++ e.print m .comma
  | none => ""

def printDeclarators (m : Place) : List Declarator → List String
  | [] => []
  | d :: rest => d.print m :: printDeclarators m rest

def Class.print (depth : Nat) : Class → String
  | .mk info superclass members =>
    (if info.isAmbient then "declare " else "") ++ (if info.isAbstract then "abstract " else "") ++
      "class" ++ labelText info.name ++ optionalType depth info.generics ++
      printSuper depth superclass ++ optionalType depth info.superTypes ++
      (if info.interfaces.isEmpty then ""
        else " implements " ++
          String.intercalate ", " (info.interfaces.map (TypeText.render depth))) ++
      " " ++ curly depth (printMembers (depth + 1) members)

def printSuper (depth : Nat) : Option Expr → String
  | some e => " extends " ++ e.print (.at depth) .postfix_
  | none => ""

def Member.print (depth : Nat) : Member → String
  | .method info kind key f =>
    leadText depth info.lead ++ memberWords info ++ methodWord kind ++ f.printMark ++
      key.print depth ++ (if info.isOptional then "?" else "") ++ f.printTail depth ++ "\n"
  | .field info key value =>
    leadText depth info.lead ++ memberWords info ++ key.print depth ++
      (if info.isOptional then "?" else "") ++ (if info.isDefinite then "!" else "") ++
      typeAnnotation depth info.type ++ printDefault depth value ++ ";\n"
  | .static lead body =>
    leadText depth lead ++ "static " ++ curly depth (printStmts (depth + 1) body) ++ "\n"
  | .indexSignature info text =>
    leadText depth info.lead ++ memberWords info ++ text.render depth ++ ";\n"

def printMembers (depth : Nat) : List Member → String
  | [] => ""
  | m :: rest => m.print depth ++ printMembers depth rest

/-- The statements of a body. A string that comes first is no directive, so it is wrapped. -/
def printHead (depth : Nat) (isFirst : Bool) : List Stmt → String
  | [] => ""
  | .mk info (.expr e) :: rest =>
    (if isFirst && e.isString then "(" ++ e.print (.at depth) .lowest ++ ");\n"
      else
        leadText depth info.lead ++ e.print ⟨depth, .statement, false, false⟩ .lowest ++ ";\n") ++
      printStmts depth rest
  | s :: rest => s.print depth ++ printStmts depth rest

def Stmt.print (depth : Nat) : Stmt → String
  | .mk info kind => leadText depth info.lead ++ kind.print depth

def printStmts (depth : Nat) : List Stmt → String
  | [] => ""
  | s :: rest => s.print depth ++ printStmts depth rest

def Stmt.printControlled (depth : Nat) : Stmt → String
  | .mk _ .empty => ";\n"
  | .mk _ kind => " " ++ kind.print depth

def StmtKind.print (depth : Nat) : StmtKind → String
  | .empty => ";\n"
  | .debugger => "debugger;\n"
  | .expr e => e.print ⟨depth, .statement, false, false⟩ .lowest ++ ";\n"
  | .vars isAmbient kind ds =>
    (if isAmbient then "declare " else "") ++ kind.text ++ " " ++
      String.intercalate ", " (printDeclarators (.at depth) ds) ++ ";\n"
  | .func f => f.print depth ++ "\n"
  | .cls c => c.print depth ++ "\n"
  | .ret e => "return" ++ printOperand depth e ++ ";\n"
  | .throw e => "throw " ++ e.print (.at depth) .lowest ++ ";\n"
  | .brk label => "break" ++ labelText label ++ ";\n"
  | .cont label => "continue" ++ labelText label ++ ";\n"
  | .block body => curly depth (printStmts (depth + 1) body) ++ "\n"
  | .ifElse c t e =>
    "if (" ++ c.print (.at depth) .lowest ++ ")" ++ t.printBranch depth e.isSome ++
      printElse depth e
  | .labeled label s => label ++ ":" ++ s.printControlled depth
  | .whileLoop c s => "while (" ++ c.print (.at depth) .lowest ++ ")" ++ s.printControlled depth
  | .doWhile s c =>
    "do" ++ s.printRepeated depth ++ "while (" ++ c.print (.at depth) .lowest ++ ");\n"
  | .forLoop head test step s =>
    "for (" ++ head.print depth ++ ";" ++ printOperand depth test ++ ";" ++
      printOperand depth step ++ ")" ++ s.printControlled depth
  | .forIn head e s =>
    "for (" ++ head.print depth ++ " in " ++ e.print (.at depth) .lowest ++ ")" ++
      s.printControlled depth
  | .forOf isAwait head e s =>
    "for " ++ (if isAwait then "await " else "") ++ "(" ++ head.print depth ++ " of " ++
      e.print (.at depth) .comma ++ ")" ++ s.printControlled depth
  | .switch e cases =>
    "switch (" ++ e.print (.at depth) .lowest ++ ") " ++
      curly depth (printCases (depth + 1) cases) ++
      "\n"
  | .withObject e s => "with (" ++ e.print (.at depth) .lowest ++ ")" ++ s.printControlled depth
  | .tryCatch body param handler =>
    "try " ++ curly depth (printStmts (depth + 1) body) ++ " catch " ++ printCatch depth param ++
      curly depth (printStmts (depth + 1) handler) ++ "\n"
  | .tryFinally body final =>
    "try " ++ curly depth (printStmts (depth + 1) body) ++ " finally " ++
      curly depth (printStmts (depth + 1) final) ++ "\n"
  | .tryCatchFinally body param handler final =>
    "try " ++ curly depth (printStmts (depth + 1) body) ++ " catch " ++ printCatch depth param ++
      curly depth (printStmts (depth + 1) handler) ++ " finally " ++
      curly depth (printStmts (depth + 1) final) ++ "\n"
  | .imports d => d.print
  | .exportNames d => d.print
  | .exportAll d => d.print
  | .exportDecl _ s => "export " ++ s.printPlain depth
  | .exportDefault e =>
    "export default " ++ e.print ⟨depth, .defaultExport, false, false⟩ .comma ++ ";\n"
  | .exportDefaultDecl s => "export default " ++ s.printPlain depth
  | .typeOnly text => text.render depth ++ "\n"
  | .enum isConst isAmbient x members =>
    (if isAmbient then "declare " else "") ++ (if isConst then "const " else "") ++ "enum " ++ x ++
      " " ++ curly depth (printEnum (depth + 1) members) ++ "\n"
  | .namespace isAmbient path body =>
    (if isAmbient then "declare " else "") ++ "namespace " ++ String.intercalate "." path ++ " " ++
      curly depth (printStmts (depth + 1) body) ++ "\n"
  | .importRequire isType x source =>
    "import " ++ typeMark isType ++ x ++ " = require(" ++ quoted source ++ ");\n"
  | .importAlias isType x path =>
    "import " ++ typeMark isType ++ x ++ " = " ++ String.intercalate "." path ++ ";\n"
  | .exportAssign e => "export = " ++ e.print (.at depth) .lowest ++ ";\n"
  | .exportNamespace x => "export as namespace " ++ x ++ ";\n"

def Stmt.printPlain (depth : Nat) : Stmt → String
  | .mk _ kind => kind.print depth

def printOperand (depth : Nat) : Option Expr → String
  | some e => " " ++ e.print (.at depth) .lowest
  | none => ""

def Stmt.printBranch (depth : Nat) (hasElse : Bool) : Stmt → String
  | .mk _ .empty => ";\n" ++ if hasElse then tabs depth else ""
  | .mk _ (.block body) =>
    " " ++ curly depth (printStmts (depth + 1) body) ++ if hasElse then " " else "\n"
  | .mk info kind =>
    if kind.endsInIf then
      " \x7b\n" ++ leadText (depth + 1) info.lead ++ kind.print (depth + 1) ++ tabs depth ++
        "\x7d" ++ if hasElse then " " else "\n"
    else " " ++ kind.print depth ++ if hasElse then tabs depth else ""

def printElse (depth : Nat) : Option Stmt → String
  | some s => "else" ++ s.printControlled depth
  | none => ""

def Stmt.printRepeated (depth : Nat) : Stmt → String
  | .mk _ (.block body) => " " ++ curly depth (printStmts (depth + 1) body) ++ " "
  | .mk info kind =>
    "\n" ++ leadText (depth + 1) info.lead ++ kind.print (depth + 1) ++ tabs depth

def printCatch (depth : Nat) : Option Pattern → String
  | some p => "(" ++ p.print depth ++ ") "
  | none => ""

def Head.print (depth : Nat) : Head → String
  | .none => ""
  | .vars kind ds =>
    kind.text ++ " " ++ String.intercalate ", " (printDeclarators ⟨depth, .nothing, true, false⟩ ds)
  | .expr e => e.print ⟨depth, .nothing, true, false⟩ .lowest
  | .target p => p.printTarget (.at depth) .comma

def Case.print (depth : Nat) : Case → String
  | .mk test [s] => tabs depth ++ printTest depth test ++ ":" ++ s.printControlled depth
  | .mk test body => tabs depth ++ printTest depth test ++ ":\n" ++ printStmts (depth + 1) body

def printTest (depth : Nat) : Option Expr → String
  | some e => "case " ++ e.print (.at depth) .lowest
  | none => "default"

def printCases (depth : Nat) : List Case → String
  | [] => ""
  | c :: rest => c.print depth ++ printCases depth rest

def EnumMember.print (depth : Nat) : EnumMember → String
  | .mk x init => tabs depth ++ x ++ printDefault depth init ++ ",\n"

def printEnum (depth : Nat) : List EnumMember → String
  | [] => ""
  | m :: rest => m.print depth ++ printEnum depth rest

end

end WidgetCompiler.Script
