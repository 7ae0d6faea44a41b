import PystonAst.Accept

/-!
# The debug printer

Each handler of `ASTPrintVisitor` is read as the list of its statements
(`PrintStep`): writes to the stream, `printIndent()`, changes of `indent`,
`accept` calls on children, and aborts. The control flow of every handler
depends on its node alone, so `ASTPrintVisitor.handler` gives the list and the
handler's answer as a function of the node, and `PrintStep.run` runs the list
against the visitor's state. `PrintState.lowest` is not a member of the C++
class: it keeps the least indent reached, for the statement that a rendering
never goes left of where it started.
-/

namespace PystonAst

open AST

/-- The members of `ASTPrintVisitor`, and the least indent reached so far. -/
structure PrintState where
  /-- What has been written. -/
  stream : String
  /-- The current indentation, in blanks. -/
  indent : Int
  /-- The least value `indent` has had. -/
  lowest : Int

/-- One statement of a print handler. -/
inductive PrintStep where
  /-- `stream << text`. -/
  | write (text : String)
  /-- `printIndent()`. -/
  | printIndent
  /-- `indent += delta`. -/
  | shiftIndent (delta : Int)
  /-- `child->accept(this)`. -/
  | accept (child : AST)
  /-- An abort, a failed assertion or an invalid access. -/
  | fault (f : Fault)

/-- The text of `printIndent()`: a blank for each unit of `indent`. -/
def spaces (indent : Int) : String := String.mk (List.replicate indent.toNat ' ')

/-- Run one statement of a handler; `accept` accepts a child with the same visitor. -/
def PrintStep.run (accept : AST → VisitM PrintState Unit) : PrintStep → VisitM PrintState Unit
  | .write text => modify fun st => { st with stream := st.stream ++ text }
  | .printIndent => modify fun st => { st with stream := st.stream ++ spaces st.indent }
  | .shiftIndent delta => modify fun st =>
    { st with indent := st.indent + delta, lowest := min st.lowest (st.indent + delta) }
  | .accept child => accept child
  | .fault f => throw f

/-- A loop over `items` that writes `sep` before every item but the first
(`if (i > 0)`, `if (i)`, `prevarg`, `first` in the source). -/
def separatedBy {α : Type} (sep : List PrintStep) (item : α → List PrintStep) :
    List α → List PrintStep
  | [] => []
  | x :: xs => item x ++ xs.flatMap fun x => sep ++ item x

/-- `v[j]->accept(this)` for an `int` index `j`. -/
def acceptAt (v : List AST) (j : Int) : PrintStep :=
  if 0 ≤ j then
    match v[j.toNat]? with
    | some child => .accept child
    | none => .fault .outOfRange
  else .fault .outOfRange

/-- `v.size() == 1 && v[0]->type == type`: how `visit_if` tells an `elif`
and `visit_tryfinally` a try/except inside a try/finally. -/
def soleOfType (v : List AST) (type : AST_TYPE) : Bool :=
  match v with
  | [s] => s.type == type
  | _ => false

theorem soleOfType_eq_true {v : List AST} {type : AST_TYPE} :
    soleOfType v type = true ↔ ∃ s, v = [s] ∧ s.type = type := by
  unfold soleOfType
  split <;> simp_all

/-- The loop most compound statements print a body with: each statement
indented, then a newline. -/
def lines (body : List AST) : List PrintStep :=
  body.flatMap fun s => [.printIndent, .accept s, .write "\n"]

/-- `printOp`: the symbol of an operator, or its number in angle brackets. -/
def printOp (build : Build) : AST_TYPE → String
  | .Add => "+"
  | .BitAnd => "&"
  | .BitOr => "|"
  | .BitXor => "^"
  | .Div => "/"
  | .LShift => "<<"
  | .RShift => ">>"
  | .Pow => "**"
  | .Mod => "%"
  | .Mult => "*"
  | .Sub => "-"
  | op => "<" ++ toString (build.typeValue op) ++ ">"

/-- What `visit_boolop` writes between two values; `ASSERT(0)` for any other
tag. -/
def boolOpSeparator (build : Build) : AST_TYPE → List PrintStep
  | .And => [.write " and "]
  | .Or => [.write " or "]
  | _ => if build.assertions then [.fault .assertion] else []

/-- One round of `visit_arguments`'s loop after its separator: `args[i]`, then
its default when `i >= nargs - ndefault`. -/
def argumentSteps (args defaults : List AST) : Nat × AST → List PrintStep
  | (i, arg) =>
    .accept arg ::
      if (i : Int) ≥ (args.length : Int) - defaults.length then
        [.write "=", acceptAt defaults (i - ((args.length : Int) - defaults.length))]
      else []

/-- One round of `visit_compare`'s loop: the symbol of `ops[i]`, then
`comparators[i]`. -/
def compareSteps (comparators : List AST) : Nat × AST_TYPE → List PrintStep
  | (i, op) =>
    match getOpSymbol op with
    | .ok symbol => [.write (" " ++ symbol ++ " "), acceptAt comparators i]
    | .error f => [.fault f]

/-- The symbol `visit_unaryop` writes; any other tag reaches `RELEASE_ASSERT`,
whose message calls `getOpName` first. -/
def unaryOpSymbol (build : Build) : AST_TYPE → List PrintStep
  | .Invert => [.write "~"]
  | .Not => [.write "not "]
  | .UAdd => [.write "+"]
  | .USub => [.write "-"]
  | op =>
    match getOpName build.assertions op with
    | .ok _ => [.fault .assertion]
    | .error f => [.fault f]

/-- The name `visit_langprimitive` writes for an opcode. -/
def Opcode.name : Opcode → String
  | .CHECK_EXC_MATCH => "CHECK_EXC_MATCH"
  | .LANDINGPAD => "LANDINGPAD"
  | .LOCALS => "LOCALS"
  | .GET_ITER => "GET_ITER"
  | .IMPORT_FROM => "IMPORT_FROM"
  | .IMPORT_NAME => "IMPORT_NAME"
  | .IMPORT_STAR => "IMPORT_STAR"
  | .NONE => "NONE"
  | .NONZERO => "NONZERO"
  | .SET_EXC_INFO => "SET_EXC_INFO"
  | .UNCACHE_EXC_INFO => "UNCACHE_EXC_INFO"
  | .HASNEXT => "HASNEXT"
  | .PRINT_EXPR => "PRINT_EXPR"

/-- The `ASTPrintVisitor::visit_*` handler of a node: its statements, and the
`skip` it returns. -/
def ASTPrintVisitor.handler (build : Build) : AST → List PrintStep × Bool
  | AST_alias name asname =>
    (.write name :: if asname.length ≠ 0 then [.write (" as " ++ asname)] else [], true)
  | AST_arguments args _ _ defaults =>
    (separatedBy [.write ", "] (argumentSteps args defaults) args.enum, true)
  | AST_Assert test msg =>
    ([.write "assert ", .accept test] ++ msg.toList.flatMap fun m => [.write ", ", .accept m], true)
  | AST_Assign targets value =>
    ((targets.flatMap fun t => [.accept t, .write " = "]) ++ [.accept value], true)
  | AST_AugAssign target op_type value =>
    ([.accept target, .write (printOp build op_type), .write "=", .accept value], true)
  | AST_AugBinOp left op_type right =>
    ([.accept left, .write "=", .write (printOp build op_type), .accept right], true)
  | AST_Attribute value attr => ([.accept value, .write ".", .write attr], true)
  | AST_BinOp left op_type right =>
    ([.accept left, .write (printOp build op_type), .accept right], true)
  | AST_BoolOp op_type values =>
    (separatedBy (boolOpSeparator build op_type) (fun v => [.accept v]) values, true)
  | AST_Break => ([.write "break"], true)
  | AST_Call func args keywords starargs kwargs =>
    ([.accept func, .write "("] ++
      separatedBy [.write ", "] (fun a => [.accept a])
        (args ++ keywords ++ starargs.toList ++ kwargs.toList) ++
      [.write ")"], true)
  | AST_Compare left ops comparators =>
    (.accept left :: ops.enum.flatMap (compareSteps comparators), true)
  | AST_comprehension target iter ifs =>
    ([.write "for ", .accept target, .write " in ", .accept iter] ++
      ifs.flatMap fun i => [.write " if ", .accept i], true)
  | AST_ClassDef name bases body decorator_list =>
    ((decorator_list.flatMap fun d => [.write "@", .accept d, .write "\n", .printIndent]) ++
      [.write ("class " ++ name ++ "(")] ++ separatedBy [.write ", "] (fun b => [.accept b]) bases ++
      [.write ")", .shiftIndent 4] ++
      (body.flatMap fun s => [.write "\n", .printIndent, .accept s]) ++ [.shiftIndent (-4)], true)
  | AST_Continue => ([.write "continue"], true)
  | AST_Delete targets =>
    (.write "del " :: separatedBy [.write ", "] (fun t => [.accept t]) targets, true)
  | AST_Dict keys values =>
    (.write "\x7b" :: separatedBy [.write ", "]
        (fun (i, key) => [.accept key, .write ":", acceptAt values i]) keys.enum ++
      [.write "\x7d"], true)
  | AST_DictComp key value generators =>
    ([.write "\x7b", .accept key, .write ":", .accept value] ++
      (generators.flatMap fun c => [.write " ", .accept c]) ++ [.write "\x7d"], true)
  | AST_Ellipsis => ([.write "..."], true)
  | AST_ExceptHandler type name body =>
    ([.write "except"] ++ (type.toList.flatMap fun t => [.write " ", .accept t]) ++
      (name.toList.flatMap fun n => [.write " as ", .accept n]) ++
      [.write ":\n", .shiftIndent 4] ++ lines body ++ [.shiftIndent (-4)], true)
  | AST_Exec body globals locals =>
    ([.write "exec ", .accept body] ++
      (globals.toList.flatMap fun g =>
        [.write " in ", .accept g] ++ locals.toList.flatMap fun l => [.write ", ", .accept l]) ++
      [.write "\n"], true)
  | AST_Expr _ => ([], false)
  | AST_ExtSlice dims => (separatedBy [.write ", "] (fun d => [.accept d]) dims, true)
  | AST_For .. => ([.write "<for loop>\n"], true)
  | AST_FunctionDef name args body decorator_list =>
    ((decorator_list.flatMap fun d => [.write "@", .accept d, .write "\n", .printIndent]) ++
      [.write "def ", .write (name.getD "<lambda>"), .write "(", .accept args, .write ")",
        .shiftIndent 4] ++
      (body.flatMap fun s => [.write "\n", .printIndent, .accept s]) ++ [.shiftIndent (-4)], true)
  | AST_GeneratorExp elt generators =>
    ([.write "[", .accept elt] ++ (generators.flatMap fun c => [.write " ", .accept c]) ++
      [.write "]"], true)
  | AST_Global names =>
    (.write "global " :: separatedBy [.write ", "] (fun n => [.write n]) names, true)
  | AST_If test body orelse =>
    ([.write "if ", .accept test, .write ":\n", .shiftIndent 4] ++ lines body ++
      [.shiftIndent (-4)] ++
      (if orelse.length ≠ 0 then
        let elif := soleOfType orelse .If
        [.printIndent] ++
          (if elif then [.write "el"] else [.write "else:\n", .shiftIndent 4]) ++
          separatedBy [.write "\n"] (fun s => [.printIndent, .accept s]) orelse ++
          (if elif then [] else [.shiftIndent (-4)])
      else []), true)
  | AST_IfExp test body orelse =>
    ([.accept body, .write " if ", .accept test, .write " else ", .accept orelse], true)
  | AST_Import names =>
    (.write "import " :: separatedBy [.write ", "] (fun n => [.accept n]) names, true)
  | AST_ImportFrom module names =>
    (.write ("from " ++ module ++ " import ") ::
      separatedBy [.write ", "] (fun n => [.accept n]) names, true)
  | AST_Index _ => ([], false)
  | AST_Invoke stmt normal_dest exc_dest =>
    (.write "invoke " ::
      match normal_dest with
      | none => [.fault .nullDeref]
      | some normal =>
        .write (toString normal ++ " ") ::
          match exc_dest with
          | none => [.fault .nullDeref]
          | some exc => [.write (toString exc ++ ": "), .accept stmt], true)
  | AST_keyword arg value => ([.write (arg ++ "="), .accept value], true)
  | AST_Lambda args body => ([.write "lambda ", .accept args, .write ": ", .accept body], true)
  | AST_LangPrimitive opcode args =>
    ([.write ":", .write opcode.name, .write "("] ++
      separatedBy [.write ", "] (fun a => [.accept a]) args ++ [.write ")"], true)
  | AST_List elts =>
    (.write "[" :: separatedBy [.write ", "] (fun e => [.accept e]) elts ++ [.write "]"], true)
  | AST_ListComp elt generators =>
    ([.write "[", .accept elt] ++ (generators.flatMap fun c => [.write " ", .accept c]) ++
      [.write "]"], true)
  | AST_Module body => (body.flatMap fun s => [.accept s, .write "\n"], true)
  | AST_Expression body => ([.accept body, .write "\n"], true)
  | AST_Suite body => (lines body, true)
  | AST_Name id => ([.write id], false)
  | AST_Num num_type n_int n_long n_float =>
    ([.write (match num_type with
      | .INT => toString n_int
      | .LONG => n_long ++ "L"
      | .FLOAT => build.showDouble n_float
      | .COMPLEX => build.showDouble n_float ++ "j")], false)
  | AST_Pass => ([.write "pass"], true)
  | AST_Print dest values nl =>
    ([.write "print "] ++ (dest.toList.flatMap fun d => [.write ">>", .accept d, .write ", "]) ++
      separatedBy [.write ", "] (fun v => [.accept v]) values ++
      (if nl then [] else [.write ","]), true)
  | AST_Raise arg0 arg1 arg2 =>
    ([.write "raise"] ++ (arg0.toList.flatMap fun a => [.write " ", .accept a]) ++
      (arg1.toList.flatMap fun a => [.write ", ", .accept a]) ++
      (arg2.toList.flatMap fun a => [.write ", ", .accept a]), true)
  | AST_Repr value => ([.write "`", .accept value, .write "`"], true)
  | AST_Return _ => ([.write "return "], false)
  | AST_Set elts =>
    ((if elts.length = 0 then [.write "SET"] else []) ++ [.write "\x7b"] ++
      separatedBy [.write ", "] (fun e => [.accept e]) elts ++ [.write "\x7d"], true)
  | AST_SetComp elt generators =>
    ([.write "\x7b", .accept elt] ++ (generators.flatMap fun c => [.write " ", .accept c]) ++
      [.write "\x7d"], true)
  | AST_Slice lower upper step =>
    ([.write "<slice>("] ++ (lower.toList.map .accept) ++
      (if upper.isSome || step.isSome then [.write ":"] else []) ++ (upper.toList.map .accept) ++
      (step.toList.flatMap fun s => [.write ":", .accept s]) ++ [.write ")"], true)
  | AST_Str str_type str_data =>
    ([.write (match str_type with
      | .STR => "\"" ++ str_data ++ "\""
      | .UNICODE => "<unicode value>")], false)
  | AST_Subscript value slice => ([.accept value, .write "[", .accept slice, .write "]"], true)
  | AST_TryExcept body handlers orelse =>
    ([.write "try:\n", .shiftIndent 4] ++ lines body ++ [.shiftIndent (-4)] ++
      (handlers.flatMap fun h => [.printIndent, .accept h]) ++
      (if orelse.length ≠ 0 then
        [.printIndent, .write "else:\n", .shiftIndent 4] ++ lines orelse ++ [.shiftIndent (-4)]
      else []), true)
  | AST_TryFinally body finalbody =>
    (if soleOfType body .TryExcept then
      [acceptAt body 0, .printIndent, .write "finally:\n", .shiftIndent 4] ++
        lines finalbody ++ [.shiftIndent (-4)]
    else
      [.write "try:\n", .shiftIndent 4] ++ lines body ++ [.shiftIndent (-4)] ++
        [.printIndent, .write "finally:\n", .shiftIndent 4] ++ lines finalbody ++
        [.shiftIndent (-4)], true)
  | AST_Tuple elts =>
    (.write "(" :: separatedBy [.write ", "] (fun e => [.accept e]) elts ++
      (if elts.length = 1 then [.write ","] else []) ++ [.write ")"], true)
  | AST_UnaryOp op_type operand =>
    (unaryOpSymbol build op_type ++ [.write "(", .accept operand, .write ")"], true)
  | AST_While test body orelse =>
    ([.write "while ", .accept test, .write "\n", .shiftIndent 4] ++ lines body ++
      [.shiftIndent (-4)] ++
      (if orelse.length ≠ 0 then
        [.printIndent, .write "else\n", .shiftIndent 4] ++ lines orelse ++ [.shiftIndent (-4)]
      else []), true)
  | AST_With context_expr optional_vars body =>
    ([.write "with ", .accept context_expr] ++
      (optional_vars.toList.flatMap fun v => [.write " as ", .accept v, .write ":\n"]) ++
      [.shiftIndent 4] ++ separatedBy [.write "\n"] (fun s => [.printIndent, .accept s]) body ++
      [.shiftIndent (-4)], true)
  | AST_Yield value => (.write "yield " :: value.toList.map .accept, true)
  | AST_ClsAttribute value attr => ([.accept value, .write (":" ++ attr)], true)

/-- `ASTPrintVisitor`: each handler runs its statements and answers its `skip`. -/
def ASTPrintVisitor (build : Build) : ASTVisitor PrintState where
  visit accept n := do
    (ASTPrintVisitor.handler build n).1.forM (PrintStep.run accept)
    pure (ASTPrintVisitor.handler build n).2

/-- `print_ast(ast)`: the text a fresh `ASTPrintVisitor` writes for `ast`;
`flush()` hands it to the output. -/
def printAst (build : Build) (ast : AST) : Except Fault String := do
  let ((), v) ← (ast.accept (ASTPrintVisitor build)).run
    ⟨"", build.printIndent0, build.printIndent0⟩
  pure v.stream

end PystonAst
