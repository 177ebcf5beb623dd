import WidgetCompiler.Proofs.ChainRoots

namespace WidgetCompiler.Script

variable {V H α β : Type}

/-- What each variable holds, or the cell of that name, and all the rest of the memory. -/
structure World (V H : Type) where
  contents : String → V
  heap : H

inductive Outcome (V α : Type)
  | value (a : α)
  | thrown (v : V)
  /-- The run leaves what is defined here. -/
  | stuck

def Comp (V H α : Type) : Type :=
  World V H → Outcome V α × World V H

namespace Comp

protected def pure (a : α) : Comp V H α :=
  fun w => (.value a, w)

protected def bind (c : Comp V H α) (f : α → Comp V H β) : Comp V H β :=
  fun w =>
    match c w with
    | (.value a, w') => f a w'
    | (.thrown v, w') => (.thrown v, w')
    | (.stuck, w') => (.stuck, w')

instance : Monad (Comp V H) where
  pure := Comp.pure
  bind := Comp.bind

instance : LawfulMonad (Comp V H) := LawfulMonad.mk' _
  (by
    intro α c
    funext w
    change Comp.bind c (fun a => Comp.pure a) w = c w
    unfold Comp.bind
    split <;> simp_all [Comp.pure])
  (by
    intro α β a f
    rfl)
  (by
    intro α β γ c f g
    funext w
    change Comp.bind (Comp.bind c f) g w = Comp.bind c (fun a => Comp.bind (f a) g) w
    unfold Comp.bind
    cases h : c w with
    | mk o w' => cases o <;> rfl)

def stuck : Comp V H α :=
  fun w => (.stuck, w)

def content (x : String) : Comp V H V :=
  fun w => (.value (w.contents x), w)

def store (x : String) (v : V) : Comp V H Unit :=
  fun w => (.value (), { w with contents := fun y => if y = x then v else w.contents y })

end Comp

inductive Primitive
  | get | set | notify

def Primitive.ofName? (x : String) : Option Primitive :=
  if x = "$get" then some .get
  else if x = "$set" then some .set
  else if x = "$notify" then some .notify
  else none

inductive Val (V : Type)
  | plain (v : V)
  | cell (x : String)
  | primitive (p : Primitive)

def Val.demand : Val V → Comp V H V
  | .plain v => pure v
  | _ => .stuck

structure Env where
  /-- The names that hold cells. -/
  cells : List String
  /-- The names that may be counted up and down only while they hold a number. -/
  counters : List String

def Env.plain : Env :=
  ⟨[], []⟩

def Env.counting (reactive : List String) : Env :=
  ⟨[], reactive⟩

def Env.tracked (reactive : List String) : Env :=
  ⟨reactive, []⟩

def Env.lookup (env : Env) (x : String) : Comp V H (Val V) :=
  match Primitive.ofName? x with
  | some p => pure (.primitive p)
  | none => if x ∈ env.cells then pure (.cell x) else .plain <$> .content x

inductive Ref (V : Type)
  | var (x : String)
  | slot (object key : V)

structure Result (V : Type) where
  value : Val V
  receiver : V

/-- The parts of the language that tracking does not touch. A number is its own numeric value,
and counting it is to add or subtract one. -/
structure Machine (V H : Type) where
  literal : Expr → V
  key : String → V
  undefined : V
  /-- The left operand is the result. -/
  decides : LogicalOp → V → Bool
  getMember : V → V → Comp V H V
  setMember : V → V → V → Comp V H Unit
  call : V → V → List V → Comp V H V
  binary : BinaryOp → V → V → Comp V H V
  isNumber : V → Bool
  toNumeric : V → Comp V H V
  step : UpdateOp → V → V
  toNumeric_number : ∀ v, isNumber v = true → toNumeric v = pure v
  binary_one : ∀ op v, isNumber v = true →
    binary (UpdateOp.binary op) v (literal .one) = pure (step op v)

namespace Machine

variable (M : Machine V H)

def alone (v : V) : Result V :=
  ⟨.plain v, M.undefined⟩

def read (env : Env) : Ref V → Comp V H V
  | .var x => do (← env.lookup x).demand
  | .slot object key => M.getMember object key

def write (env : Env) : Ref V → V → Comp V H Unit
  | .var x, v =>
    if x ∈ env.cells || (Primitive.ofName? x).isSome then .stuck else .store x v
  | .slot object key, v => M.setMember object key v

def apply : Val V → V → List (Val V) → Comp V H V
  | .plain f, receiver, args => do M.call f receiver (← args.mapM Val.demand)
  | .primitive .get, _, [.cell x] => .content x
  | .primitive .set, _, [.cell x, .plain v] => do
    Comp.store x v
    return v
  | .primitive .notify, _, [.cell _] => pure M.undefined
  | _, _, _ => .stuck

def assign (env : Env) (op : AssignOp) (ref : Ref V) (value : Comp V H V) : Comp V H V :=
  match op with
  | .plain => do
    let v ← value
    M.write env ref v
    return v
  | .binary op => do
    let old ← M.read env ref
    let v ← M.binary op old (← value)
    M.write env ref v
    return v
  | .logical op => do
    let old ← M.read env ref
    if M.decides op old then return old
    let v ← value
    M.write env ref v
    return v

def update (env : Env) (op : UpdateOp) (isPre : Bool) (ref : Ref V) : Comp V H V := do
  let old ← M.read env ref
  match ref with
  | .var x => if x ∈ env.counters && !M.isNumber old then Comp.stuck else pure ()
  | .slot .. => pure ()
  let n ← M.toNumeric old
  M.write env ref (M.step op n)
  return if isPre then M.step op n else n

end Machine

mutual

/-- The run of an expression that is made of literals, names, members, calls, assignments,
updates, binary and logical operators and sequences. A member or a call is optional only inside
a chain, which is not among them. -/
def Expr.run (M : Machine V H) (env : Env) : Expr → Comp V H (Result V)
  | .name x => do return ⟨← env.lookup x, M.undefined⟩
  | .paren e => e.run M env
  | .member base x _ => do
    let object ← (← base.run M env).value.demand
    return ⟨.plain (← M.getMember object (M.key x)), object⟩
  | .index base key _ => do
    let object ← (← base.run M env).value.demand
    let k ← (← key.run M env).value.demand
    return ⟨.plain (← M.getMember object k), object⟩
  | .call callee _ args _ => do
    let f ← callee.run M env
    return M.alone (← M.apply f.value f.receiver (← runArgs M env args))
  | .assign op target value => do
    let ref ← target.run M env
    return M.alone (← M.assign env op ref do (← value.run M env).value.demand)
  | .update op isPre target => do
    return M.alone (← M.update env op isPre (← target.run M env))
  | .binary op l r => do
    let a ← (← l.run M env).value.demand
    let b ← (← r.run M env).value.demand
    return M.alone (← M.binary op a b)
  | .logical op l r => do
    let a ← (← l.run M env).value.demand
    if M.decides op a then return M.alone a
    return ⟨(← r.run M env).value, M.undefined⟩
  | .seq es => do return ⟨← runSeq M env es, M.undefined⟩
  | .this => pure (M.alone (M.literal .this))
  | .null => pure (M.alone (M.literal .null))
  | .bool b => pure (M.alone (M.literal (.bool b)))
  | .num n => pure (M.alone (M.literal (.num n)))
  | .bigint digits => pure (M.alone (M.literal (.bigint digits)))
  | .str s => pure (M.alone (M.literal (.str s)))
  | .units codes => pure (M.alone (M.literal (.units codes)))
  | .regex pattern flags => pure (M.alone (M.literal (.regex pattern flags)))
  | _ => .stuck

def Expr.runSlot (M : Machine V H) (env : Env) : Expr → Comp V H (V × V)
  | .member base x _ => do
    let object ← (← base.run M env).value.demand
    return (object, M.key x)
  | .index base key _ => do
    let object ← (← base.run M env).value.demand
    return (object, ← (← key.run M env).value.demand)
  | _ => .stuck

def Pattern.run (M : Machine V H) (env : Env) : Pattern → Comp V H (Ref V)
  | .name x => pure (.var x)
  | .target e => do
    let (object, key) ← e.runSlot M env
    return .slot object key
  | _ => .stuck

def runArgs (M : Machine V H) (env : Env) : List Item → Comp V H (List (Val V))
  | [] => pure []
  | .expr _ e :: rest => do
    let r ← e.run M env
    return r.value :: (← runArgs M env rest)
  | _ :: _ => .stuck

def runSeq (M : Machine V H) (env : Env) : List Expr → Comp V H (Val V)
  | [] => .stuck
  | [e] => do return (← e.run M env).value
  | e :: rest => do
    let _ ← e.run M env
    runSeq M env rest

end

variable {e : Expr} {f : String} {x : String} {used : Bool}

attribute [local simp] Expr.track Option.filter Expr.root

def reservedNames : List String :=
  ["$get", "$set", "$notify", "$derived"]

def Expr.rootName : Expr → Option String
  | .name x => some x
  | .member base _ _ => base.rootName
  | .index base _ _ => base.rootName
  | .paren e => e.rootName
  | _ => none

def Expr.isRootedIn (reactive : List String) (e : Expr) : Bool :=
  e.rootName.any (· ∈ reactive)

def Expr.mutates (reactive : List String) : Expr → Bool
  | .member base x _ => x ∈ mutatingMethods && base.isRootedIn reactive
  | _ => false

def Pattern.mutates (reactive : List String) : Pattern → Bool
  | .target (.member base _ _) => base.isRootedIn reactive
  | .target (.index base _ _) => base.isRootedIn reactive
  | _ => false

def Pattern.isCell (reactive : List String) : Pattern → Bool
  | .name x => x ∈ reactive
  | _ => false

mutual

/-- The expression is made of literals, names, members, calls, assignments, updates, binary and
logical operators and sequences, no name is reserved, and no part whose value is used, nor the
whole if it is, changes in place what a cell holds or counts a cell after taking its value. -/
def Expr.keepsValue (reactive : List String) (used : Bool) : Expr → Bool
  | .name x => x ∉ reservedNames
  | .paren e => e.keepsValue reactive used
  | .member base _ _ => base.keepsValue reactive true
  | .index base key _ => base.keepsValue reactive true && key.keepsValue reactive true
  | .call callee _ args _ =>
    callee.keepsValue reactive true && argsKeep reactive args &&
      !(used && callee.mutates reactive)
  | .assign _ target value =>
    target.keepsValue reactive && value.keepsValue reactive true &&
      !(used && target.mutates reactive)
  | .update _ isPre target =>
    target.keepsValue reactive &&
      !(used && (target.mutates reactive || (target.isCell reactive && !isPre)))
  | .binary _ l r => l.keepsValue reactive true && r.keepsValue reactive true
  | .logical _ l r => l.keepsValue reactive true && r.keepsValue reactive used
  | .seq es => seqKeeps reactive used es
  | .this => true
  | .null => true
  | .bool _ => true
  | .num _ => true
  | .bigint _ => true
  | .str _ => true
  | .units _ => true
  | .regex _ _ => true
  | _ => false

def Pattern.keepsValue (reactive : List String) : Pattern → Bool
  | .name x => x ∉ reservedNames
  | .target e => e.slotKeeps reactive
  | _ => false

def Expr.slotKeeps (reactive : List String) : Expr → Bool
  | .member base _ _ => base.keepsValue reactive true
  | .index base key _ => base.keepsValue reactive true && key.keepsValue reactive true
  | _ => false

def argsKeep (reactive : List String) : List Item → Bool
  | [] => true
  | .expr _ e :: rest => e.keepsValue reactive true && argsKeep reactive rest
  | _ :: _ => false

def seqKeeps (reactive : List String) (used : Bool) : List Expr → Bool
  | [] => false
  | [e] => e.keepsValue reactive used
  | e :: rest => e.keepsValue reactive false && seqKeeps reactive used rest

end

section Shape

variable {reactive : List String} {used : Bool}

attribute [local simp] Expr.keepsValue

theorem stripped_of_keepsValue (h : e.keepsValue reactive used = true) : e.stripped = e := by
  cases e
  case asType | satisfies | nonNull | assertType => cases h
  all_goals rfl

theorem eq_member_of_keepsValue {e base : Expr} {optional : Bool}
    (h : e.keepsValue reactive used = true) (he : e.track reactive true = .member base x optional) :
    ∃ b, e = .member b x optional ∧ b.track reactive true = base :=
  stripped_of_keepsValue h ▸ stripped_of_track_member e he

/-- The names of the cell operations and `$derived` are not written by tracking. -/
theorem track_ne_reserved (h : e.keepsValue reactive used = true) (hf : f ∈ reservedNames) :
    e.track reactive true ≠ .name f := by
  intro he
  obtain rfl : e = .name f := stripped_of_keepsValue h ▸ stripped_of_track_name e he
  simp [hf] at h

theorem isPrimitive_track (h : e.keepsValue reactive used = true) :
    e.isPrimitive = false ∧ (e.track reactive true).isPrimitive = false := by
  constructor
  · cases e
    case name x =>
      simp only [Expr.keepsValue, reservedNames] at h
      simp only [Expr.isPrimitive]
      grind
    all_goals rfl
  · refine Bool.eq_false_iff.mpr fun hp => ?_
    unfold Expr.isPrimitive at hp
    split at hp
    · rename_i f hf
      refine track_ne_reserved h ?_ hf
      simp only [reservedNames]
      grind
    · cases hp

theorem root_track (e : Expr) {used : Bool} (h : e.keepsValue reactive used = true) :
    (e.track reactive true).root = e.rootName.filter (· ∈ reactive) := by
  have hn {e : Expr} (hr : e.chainRoot true = none) : e.root = none := by
    rw [root_eq, hr]
    rfl
  cases e
  case name x =>
    by_cases hx : x ∈ reactive
    · simp [hx, Expr.rootName, Expr.get, Expr.primitive, Expr.item, cellOfCall]
    · simp [hx, Expr.rootName]
  case member base _ _ => exact root_track base h
  case index base _ _ =>
    simp only [Expr.keepsValue, Bool.and_eq_true] at h
    exact root_track base h.1
  case paren e => exact root_track e h
  case call callee types args optional =>
    simp only [Expr.keepsValue, Bool.and_eq_true] at h
    obtain ⟨hp, hq⟩ := isPrimitive_track h.1.1
    simpa [hp, Expr.rootName] using hn (chainRoot_finishCall hq _ _ _)
  case assign => simpa [Expr.rootName] using hn chainRoot_finishAssign
  case update => simpa [Expr.rootName] using hn chainRoot_finishUpdate
  case seq es =>
    obtain ⟨es', he⟩ := exists_track_seq reactive true es
    rw [he]
    rfl
  case binary | logical => simp [Expr.rootName]
  case this | null | bool | num | bigint | str | units | regex => rfl
  all_goals cases h

theorem rootName_not_reserved (e : Expr) {used : Bool} {x : String}
    (h : e.keepsValue reactive used = true) (hx : e.rootName = some x) : x ∉ reservedNames := by
  cases e
  case name =>
    cases hx
    simpa using h
  case member base _ _ => exact rootName_not_reserved base h hx
  case index base _ _ =>
    simp only [Expr.keepsValue, Bool.and_eq_true] at h
    exact rootName_not_reserved base h.1 hx
  case paren e => exact rootName_not_reserved e h hx
  all_goals cases hx

/-- Tracking notifies the cell `root` if and only if the change is one `inPlace`. -/
def NotifiesIf (reactive : List String) (inPlace : Bool) : Option String → Prop
  | none => inPlace = false
  | some x => inPlace = true ∧ x ∈ reactive ∧ x ∉ reservedNames

theorem root_notifies (h : e.keepsValue reactive used = true) :
    NotifiesIf reactive (e.isRootedIn reactive) (e.track reactive true).root := by
  rw [root_track e h]
  unfold Expr.isRootedIn
  cases hx : e.rootName with
  | none => rfl
  | some x =>
    by_cases hr : x ∈ reactive
    · simpa [NotifiesIf, hr] using rootName_not_reserved e h hx
    · simp [NotifiesIf, hr]

theorem target_notifies (h : e.slotKeeps reactive = true) :
    NotifiesIf reactive ((Pattern.target e).mutates reactive)
      (e.track reactive false).targetRoot := by
  cases e
  case member => exact root_notifies h
  case index =>
    simp only [Expr.slotKeeps, Bool.and_eq_true] at h
    exact root_notifies h.1
  all_goals cases h

theorem method_notifies (h : e.keepsValue reactive true = true) :
    NotifiesIf reactive (e.mutates reactive) (e.track reactive true).methodRoot := by
  cases e
  case member base x _ =>
    have hb : base.keepsValue reactive true = true := h
    by_cases hx : x ∈ mutatingMethods
    · simpa [Expr.mutates, Expr.methodRoot, hx] using root_notifies hb
    · simp [Expr.mutates, Expr.methodRoot, hx, NotifiesIf]
  all_goals
    generalize ht : Expr.track reactive true _ = e'
    cases e'
    case member =>
      obtain ⟨_, he, _⟩ := eq_member_of_keepsValue h ht
      cases he
    all_goals rfl

theorem finishCall_of_keepsValue {callee : Expr} (h : callee.keepsValue reactive used = true)
    (types : Option TypeText) (args : List Item) (optional : Bool) :
    finishCall (callee.track reactive true) types args optional =
      .notifyRoot (callee.track reactive true).methodRoot
        (.call (callee.track reactive true) types args optional) := by
  refine finishCall_eq (track_ne_reserved h (by simp [reservedNames])) (fun opt he => ?_) ..
  obtain ⟨base, rfl, hf⟩ := eq_member_of_keepsValue h he
  have hk : base.keepsValue reactive true = true := h
  exact track_ne_reserved hk (by simp [reservedNames]) hf

theorem isNotify_of_keepsValue (h : e.keepsValue reactive used = true) : e.isNotify = false := by
  cases e
  case call callee _ args _ =>
    refine Bool.eq_false_iff.mpr fun hs => ?_
    obtain ⟨x, hx⟩ := Option.isSome_iff_exists.mp hs
    rw [callee_of_cellOfCall hx] at h
    simp [reservedNames] at h
  case marked => cases h
  all_goals rfl

theorem track_seq {es : List Expr} (h : seqKeeps reactive used es = true) :
    (Expr.seq es).track reactive true = .seq (trackExprs reactive es) := by
  match es with
  | [] | [_] | _ :: _ :: _ :: _ => simp
  | [_, e] =>
    simp only [seqKeeps, Bool.and_eq_true] at h
    simp [trackExprs, isNotify_of_keepsValue h.2]

end Shape

end WidgetCompiler.Script
