import PystonAst.Syntax

/-!
# The operator resolver

`getOpSymbol` and `getOpName` are the two tables of ast.cpp; the in-place and
reverse names are derived from `getOpName` by string surgery, and comparisons
are reversed through `getReverseCmpOp`. A tag outside a table aborts. `assert`
calls depend on the build, so the functions that contain one take `assertions`
(false under `NDEBUG`). The interned-string cache of `getOpName` is an
implementation detail with no effect on the values returned and is not modelled.
-/

namespace PystonAst

/-- `getOpSymbol`: the text the debug printer shows for an operator. -/
def getOpSymbol : AST_TYPE → Except Fault String
  | .Add => .ok "+"
  | .BitAnd => .ok "&"
  | .BitOr => .ok "|"
  | .BitXor => .ok "^"
  | .Div | .TrueDiv => .ok "/"
  | .DivMod => .ok "divmod()"
  | .Eq => .ok "=="
  | .FloorDiv => .ok "//"
  | .LShift => .ok "<<"
  | .Lt => .ok "<"
  | .LtE => .ok "<="
  | .Gt => .ok ">"
  | .GtE => .ok ">="
  | .In => .ok "in"
  | .Invert => .ok "~"
  | .Is => .ok "is"
  | .IsNot => .ok "is not"
  | .Mod => .ok "%"
  | .Mult => .ok "*"
  | .Not => .ok "not"
  | .NotEq => .ok "!="
  | .NotIn => .ok "not in"
  | .Pow => .ok "**"
  | .RShift => .ok ">>"
  | .Sub => .ok "-"
  | .UAdd => .ok "+"
  | .USub => .ok "-"
  | op => .error (.unknownOpType op)

def getInplaceOpSymbol (op : AST_TYPE) : Except Fault String := do
  return (← getOpSymbol op) ++ "="

/-- `getOpName`: the special method the runtime looks up. The two `assert`s
reject `Is` and `IsNot` before the table is consulted. -/
def getOpName (assertions : Bool) (op : AST_TYPE) : Except Fault String :=
  if assertions && (op == .Is || op == .IsNot) then .error .assertion else
  match op with
  | .Add => .ok "__add__"
  | .BitAnd => .ok "__and__"
  | .BitOr => .ok "__or__"
  | .BitXor => .ok "__xor__"
  | .Div => .ok "__div__"
  | .TrueDiv => .ok "__truediv__"
  | .DivMod => .ok "__divmod__"
  | .Eq => .ok "__eq__"
  | .FloorDiv => .ok "__floordiv__"
  | .LShift => .ok "__lshift__"
  | .Lt => .ok "__lt__"
  | .LtE => .ok "__le__"
  | .Gt => .ok "__gt__"
  | .GtE => .ok "__ge__"
  | .In => .ok "__contains__"
  | .Invert => .ok "__invert__"
  | .Mod => .ok "__mod__"
  | .Mult => .ok "__mul__"
  | .Not => .ok "__nonzero__"
  | .NotEq => .ok "__ne__"
  | .Pow => .ok "__pow__"
  | .RShift => .ok "__rshift__"
  | .Sub => .ok "__sub__"
  | .UAdd => .ok "__pos__"
  | .USub => .ok "__neg__"
  | op => .error (.unknownOpType op)

/-- `getInplaceOpName`: `"__i"` followed by the special-method name without its
first two characters. -/
def getInplaceOpName (assertions : Bool) (op : AST_TYPE) : Except Fault String := do
  return "__i" ++ (← getOpName assertions op).drop 2

/-- `getReverseCmpOp`: the comparison to try with the operands swapped, and the
`success` flag; any other tag comes back unchanged with `success` false. -/
def getReverseCmpOp : AST_TYPE → AST_TYPE × Bool
  | .Lt => (.Gt, true)
  | .LtE => (.GtE, true)
  | .Gt => (.Lt, true)
  | .GtE => (.LtE, true)
  | .NotEq => (.NotEq, true)
  | .Eq => (.Eq, true)
  | op => (op, false)

/-- `getReverseOpName`: the reversed comparison's own name, or else `"__r"`
followed by the name without its first two characters. -/
def getReverseOpName (assertions : Bool) (op : AST_TYPE) : Except Fault String :=
  let (op, reversed) := getReverseCmpOp op
  if reversed then getOpName assertions op
  else do return "__r" ++ (← getOpName assertions op).drop 2

/-- The six tags `getReverseCmpOp` reverses. -/
def isReversibleCmp (op : AST_TYPE) : Bool :=
  op == .Eq || op == .NotEq || op == .Lt || op == .LtE || op == .Gt || op == .GtE

/-- The ten comparison tags a Compare node may hold. -/
def isCmpOp (op : AST_TYPE) : Bool :=
  isReversibleCmp op || op == .Is || op == .IsNot || op == .In || op == .NotIn

/-- The tags with a special-method name. -/
def opNameTags : List AST_TYPE :=
  [.Add, .BitAnd, .BitOr, .BitXor, .Div, .TrueDiv, .DivMod, .Eq, .FloorDiv, .LShift, .Lt,
    .LtE, .Gt, .GtE, .In, .Invert, .Mod, .Mult, .Not, .NotEq, .Pow, .RShift, .Sub, .UAdd, .USub]

/-- The tags with a display symbol: those with a name, and `Is`, `IsNot`, `NotIn`. -/
def opSymbolTags : List AST_TYPE := opNameTags ++ [.Is, .IsNot, .NotIn]

theorem getReverseCmpOp_of_reversible {op : AST_TYPE} (h : isReversibleCmp op = true) :
    (getReverseCmpOp op).2 = true ∧ isReversibleCmp (getReverseCmpOp op).1 = true := by
  cases op <;> simp_all [isReversibleCmp, getReverseCmpOp]

theorem getReverseCmpOp_of_not_reversible {op : AST_TYPE} (h : isReversibleCmp op = false) :
    getReverseCmpOp op = (op, false) := by
  cases op <;> simp_all [isReversibleCmp, getReverseCmpOp]

theorem getOpSymbol_ok_of_isCmpOp {op : AST_TYPE} (h : isCmpOp op = true) :
    ∃ symbol, getOpSymbol op = .ok symbol := by
  cases op <;> simp_all [isCmpOp, isReversibleCmp, getOpSymbol]

/-- The swap table is an involution: reversing twice gives back the tag, with
`success` set exactly on the six comparisons. -/
theorem getReverseCmpOp_twice (op : AST_TYPE) :
    getReverseCmpOp (getReverseCmpOp op).1 = (op, isReversibleCmp op) := by
  cases op <;> rfl

/-- Every name `getOpName` returns begins with `__`. -/
theorem getOpName_leading_underscores {assertions : Bool} {op : AST_TYPE} {name : String}
    (h : getOpName assertions op = .ok name) : "__" ++ name.drop 2 = name := by
  cases op <;> cases assertions <;> simp [getOpName] at h <;> subst h <;> decide

/-- The in-place and reverse names follow from the special-method name: `i` or
`r` is inserted after its leading `__`, except that a reversible comparison's
reverse name is the special-method name of the swapped comparison. -/
theorem derived_op_names (assertions : Bool) (op : AST_TYPE) (name : String)
    (h : getOpName assertions op = .ok name) :
    ∃ rest, name = "__" ++ rest ∧ getInplaceOpName assertions op = .ok ("__i" ++ rest) ∧
      getReverseOpName assertions op =
        if isReversibleCmp op then getOpName assertions (getReverseCmpOp op).1
        else .ok ("__r" ++ rest) := by
  refine ⟨name.drop 2, (getOpName_leading_underscores h).symm, by simp [getInplaceOpName, h], ?_⟩
  cases hrev : isReversibleCmp op
  · simp [getReverseOpName, getReverseCmpOp_of_not_reversible hrev, h]
  · have := (getReverseCmpOp_of_reversible hrev).1
    simp [getReverseOpName, this]

/-- The tags each resolver function accepts; every other tag aborts, in either
build. `NotIn`, `Is` and `IsNot` have a symbol but no special-method name, so
no in-place or reverse name either. -/
theorem resolver_domain (assertions : Bool) (op : AST_TYPE) :
    (getOpSymbol op).toBool = decide (op ∈ opSymbolTags) ∧
    (getOpName assertions op).toBool = decide (op ∈ opNameTags) ∧
    (getInplaceOpName assertions op).toBool = decide (op ∈ opNameTags) ∧
    (getReverseOpName assertions op).toBool = decide (op ∈ opNameTags) := by
  cases assertions <;> cases op <;> decide

end PystonAst
