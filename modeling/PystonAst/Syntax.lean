import Mathlib.Data.List.Basic

/-!
# Node kinds and the syntax tree

`AST_TYPE` is the one enumeration ast.cpp switches on. Node kinds and operator
tags share it, as in the C++, where an `op_type` field holds a value of the same
type as `node->type`; only the values ast.cpp names are listed.

`AST` has one constructor per node class of ast.cpp, named after the class, with
the fields ast.cpp reads. A required child is an `AST`, an optional one an
`Option AST` (a null pointer is `none`), a vector a `List AST`; so a tree with a
null required child cannot be built. Children are untyped: the C++ split into
`AST_expr`, `AST_stmt` and the helper classes is not enforced.
-/

namespace PystonAst

/-- The tags of `AST_TYPE` that ast.cpp names: the node kinds, then the operator
tags kept in `op_type` fields. -/
inductive AST_TYPE where
  | alias | arguments | Assert | Assign | Attribute | AugAssign | AugBinOp | BinOp
  | BoolOp | Break | Call | ClassDef | ClsAttribute | Compare | comprehension
  | Continue | Delete | Dict | DictComp | Ellipsis | ExceptHandler | Exec | Expr
  | Expression | ExtSlice | For | FunctionDef | GeneratorExp | Global | If | IfExp
  | Import | ImportFrom | Index | Invoke | keyword | Lambda | LangPrimitive | List
  | ListComp | Module | Name | Num | Pass | Print | Raise | Repr | Return | Set
  | SetComp | Slice | Str | Subscript | Suite | TryExcept | TryFinally | Tuple
  | UnaryOp | While | With | Yield
  | Add | BitAnd | BitOr | BitXor | Div | TrueDiv | DivMod | Eq | FloorDiv | LShift
  | Lt | LtE | Gt | GtE | In | Invert | Is | IsNot | Mod | Mult | Not | NotEq | NotIn
  | Pow | RShift | Sub | UAdd | USub | And | Or
  deriving DecidableEq, Repr

/-- `AST_Num::NumType`: the values `visit_num` distinguishes. -/
inductive NumType where
  | INT | LONG | FLOAT | COMPLEX
  deriving DecidableEq, Repr

/-- `AST_Str::StrType`: the values `visit_str` distinguishes. -/
inductive StrType where
  | STR | UNICODE
  deriving DecidableEq, Repr

/-- `AST_LangPrimitive::Opcodes`, the runtime operations without surface syntax. -/
inductive Opcode where
  | CHECK_EXC_MATCH | LANDINGPAD | LOCALS | GET_ITER | IMPORT_FROM | IMPORT_NAME
  | IMPORT_STAR | NONE | NONZERO | SET_EXC_INFO | UNCACHE_EXC_INFO | HASNEXT | PRINT_EXPR
  deriving DecidableEq, Repr

/-- A node of the tree. An `InternedString` is a `String`; `FunctionDef.name` is
`none` for the default-constructed `InternedString()` a lambda gets. A CFG block
an `Invoke` points to is represented by its `idx`. -/
inductive AST where
  | AST_alias (name asname : String)
  | AST_arguments (args : List AST) (vararg kwarg : Option AST) (defaults : List AST)
  | AST_Assert (test : AST) (msg : Option AST)
  | AST_Assign (targets : List AST) (value : AST)
  | AST_Attribute (value : AST) (attr : String)
  | AST_AugAssign (target : AST) (op_type : AST_TYPE) (value : AST)
  | AST_AugBinOp (left : AST) (op_type : AST_TYPE) (right : AST)
  | AST_BinOp (left : AST) (op_type : AST_TYPE) (right : AST)
  | AST_BoolOp (op_type : AST_TYPE) (values : List AST)
  | AST_Break
  | AST_Call (func : AST) (args keywords : List AST) (starargs kwargs : Option AST)
  | AST_ClassDef (name : String) (bases body decorator_list : List AST)
  | AST_ClsAttribute (value : AST) (attr : String)
  | AST_Compare (left : AST) (ops : List AST_TYPE) (comparators : List AST)
  | AST_comprehension (target iter : AST) (ifs : List AST)
  | AST_Continue
  | AST_Delete (targets : List AST)
  | AST_Dict (keys values : List AST)
  | AST_DictComp (key value : AST) (generators : List AST)
  | AST_Ellipsis
  | AST_ExceptHandler (type name : Option AST) (body : List AST)
  | AST_Exec (body : AST) (globals locals : Option AST)
  | AST_Expr (value : AST)
  | AST_Expression (body : AST)
  | AST_ExtSlice (dims : List AST)
  | AST_For (target iter : AST) (body orelse : List AST)
  | AST_FunctionDef (name : Option String) (args : AST) (body decorator_list : List AST)
  | AST_GeneratorExp (elt : AST) (generators : List AST)
  | AST_Global (names : List String)
  | AST_If (test : AST) (body orelse : List AST)
  | AST_IfExp (test body orelse : AST)
  | AST_Import (names : List AST)
  | AST_ImportFrom (module : String) (names : List AST)
  | AST_Index (value : AST)
  | AST_Invoke (stmt : AST) (normal_dest exc_dest : Option Int)
  | AST_keyword (arg : String) (value : AST)
  | AST_Lambda (args body : AST)
  | AST_LangPrimitive (opcode : Opcode) (args : List AST)
  | AST_List (elts : List AST)
  | AST_ListComp (elt : AST) (generators : List AST)
  | AST_Module (body : List AST)
  | AST_Name (id : String)
  | AST_Num (num_type : NumType) (n_int : Int) (n_long : String) (n_float : Float)
  | AST_Pass
  | AST_Print (dest : Option AST) (values : List AST) (nl : Bool)
  | AST_Raise (arg0 arg1 arg2 : Option AST)
  | AST_Repr (value : AST)
  | AST_Return (value : Option AST)
  | AST_Set (elts : List AST)
  | AST_SetComp (elt : AST) (generators : List AST)
  | AST_Slice (lower upper step : Option AST)
  | AST_Str (str_type : StrType) (str_data : String)
  | AST_Subscript (value slice : AST)
  | AST_Suite (body : List AST)
  | AST_TryExcept (body handlers orelse : List AST)
  | AST_TryFinally (body finalbody : List AST)
  | AST_Tuple (elts : List AST)
  | AST_UnaryOp (op_type : AST_TYPE) (operand : AST)
  | AST_While (test : AST) (body orelse : List AST)
  | AST_With (context_expr : AST) (optional_vars : Option AST) (body : List AST)
  | AST_Yield (value : Option AST)
  deriving Repr, Inhabited

namespace AST

/-- `node->type`, fixed by each class's constructor. -/
def type : AST → AST_TYPE
  | AST_alias .. => .alias
  | AST_arguments .. => .arguments
  | AST_Assert .. => .Assert
  | AST_Assign .. => .Assign
  | AST_Attribute .. => .Attribute
  | AST_AugAssign .. => .AugAssign
  | AST_AugBinOp .. => .AugBinOp
  | AST_BinOp .. => .BinOp
  | AST_BoolOp .. => .BoolOp
  | AST_Break => .Break
  | AST_Call .. => .Call
  | AST_ClassDef .. => .ClassDef
  | AST_ClsAttribute .. => .ClsAttribute
  | AST_Compare .. => .Compare
  | AST_comprehension .. => .comprehension
  | AST_Continue => .Continue
  | AST_Delete .. => .Delete
  | AST_Dict .. => .Dict
  | AST_DictComp .. => .DictComp
  | AST_Ellipsis => .Ellipsis
  | AST_ExceptHandler .. => .ExceptHandler
  | AST_Exec .. => .Exec
  | AST_Expr .. => .Expr
  | AST_Expression .. => .Expression
  | AST_ExtSlice .. => .ExtSlice
  | AST_For .. => .For
  | AST_FunctionDef .. => .FunctionDef
  | AST_GeneratorExp .. => .GeneratorExp
  | AST_Global .. => .Global
  | AST_If .. => .If
  | AST_IfExp .. => .IfExp
  | AST_Import .. => .Import
  | AST_ImportFrom .. => .ImportFrom
  | AST_Index .. => .Index
  | AST_Invoke .. => .Invoke
  | AST_keyword .. => .keyword
  | AST_Lambda .. => .Lambda
  | AST_LangPrimitive .. => .LangPrimitive
  | AST_List .. => .List
  | AST_ListComp .. => .ListComp
  | AST_Module .. => .Module
  | AST_Name .. => .Name
  | AST_Num .. => .Num
  | AST_Pass => .Pass
  | AST_Print .. => .Print
  | AST_Raise .. => .Raise
  | AST_Repr .. => .Repr
  | AST_Return .. => .Return
  | AST_Set .. => .Set
  | AST_SetComp .. => .SetComp
  | AST_Slice .. => .Slice
  | AST_Str .. => .Str
  | AST_Subscript .. => .Subscript
  | AST_Suite .. => .Suite
  | AST_TryExcept .. => .TryExcept
  | AST_TryFinally .. => .TryFinally
  | AST_Tuple .. => .Tuple
  | AST_UnaryOp .. => .UnaryOp
  | AST_While .. => .While
  | AST_With .. => .With
  | AST_Yield .. => .Yield

end AST

/-- How a run of ast.cpp can stop without finishing. Every one of these ends the
process in the C++ (an out-of-range read or null dereference is undefined
behaviour); `outOfFuel` is the model's recursion bound, never reached from
`AST.accept`. -/
inductive Fault where
  /-- `abort()` after "Unknown op type" in `getOpSymbol` or `getOpName`. -/
  | unknownOpType (op : AST_TYPE)
  /-- A failed `RELEASE_ASSERT`, or `assert`/`ASSERT` in a build with assertions. -/
  | assertion
  /-- A vector read at an index past its end. -/
  | outOfRange
  /-- A null child pointer dereferenced. -/
  | nullDeref
  | outOfFuel
  deriving DecidableEq, Repr

/-- What ast.cpp leaves to its build and to ast.h. -/
structure Build where
  /-- Whether `assert` and `ASSERT` are compiled in: false under `NDEBUG`. -/
  assertions : Bool
  /-- The number of each `AST_TYPE` tag, as ast.h declares the enumeration. -/
  typeValue : AST_TYPE → Int
  /-- What the base `ASTVisitor` handlers answer for the kinds a subclass does
  not override; they cannot see the subclass's state. -/
  inherited : AST → Except Fault Bool
  /-- How `operator<<` prints a `double`. -/
  showDouble : Float → String
  /-- The indent `ASTPrintVisitor`'s constructor starts from. -/
  printIndent0 : Int

end PystonAst
