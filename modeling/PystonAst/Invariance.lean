import PystonAst.PrintSim

/-!
# What the printer's text does not depend on

On a tree that meets the parser's contract `print_ast` writes the same text in
a build with assertions and in one without (`printAst_build_congr`): the only
handler statements that read `NDEBUG` sit on operator tags the contract
excludes. A tree with no statement that starts its own lines prints the same
text from every indent (`render_indent_free`): expressions are laid out on the
line they are accepted on. Comparators past the last operator of a Compare and
values past the last key of a Dict never reach the text
(`render_ignores_surplus`).
-/

namespace PystonAst

open AST

/-- Two builds that agree on everything the printer writes: the numbering of
the tags and the printing of a `double`. -/
def Build.PrintsAlike (build build' : Build) : Prop :=
  build.typeValue = build'.typeValue ∧ build.showDouble = build'.showDouble

theorem printOp_congr {build build' : Build} (h : build.typeValue = build'.typeValue) :
    printOp build = printOp build' := by
  obtain ⟨_, _, _, _, _⟩ := build
  obtain ⟨_, _, _, _, _⟩ := build'
  dsimp only at h
  subst h
  rfl

/-- One node: a handler reads the build only through `PrintsAlike`, and through
`assertions` only on a BoolOp or UnaryOp tag the contract excludes. -/
theorem handler_build_congr {build build' : Build} (h : build.PrintsAlike build') {n : AST}
    (hn : n.sound = true) : ASTPrintVisitor.handler build n = ASTPrintVisitor.handler build' n := by
  cases n <;> simp only [ASTPrintVisitor.handler, printOp_congr h.1, h.2]
  case AST_BoolOp op _ =>
    rcases (by simpa [sound] using hn : op = .And ∨ op = .Or) with rfl | rfl <;> rfl
  case AST_UnaryOp op _ =>
    rcases (by simpa [sound] using hn :
        ((op = .Invert ∨ op = .Not) ∨ op = .UAdd) ∨ op = .USub)
      with ((rfl | rfl) | rfl) | rfl <;> rfl

theorem render_build_congr {build build' : Build} (h : build.PrintsAlike build') {t : AST}
    (ht : t.WellFormed) (d : Int) : render build d t = render build' d t := by
  induction t using children_induction generalizing d with
  | step n inductionHypothesis =>
    have hperm := children_perm_fields n (keysMatchValues_of_sound ht.self)
    have hchild : ∀ c ∈ n.children, ∀ e, render build e c = render build' e c :=
      fun c hc => inductionHypothesis c hc (ht.child hc)
    rw [render_eq, render_eq, handler_build_congr h ht.self,
      stepsText_congr fun c hc => hchild c (hperm.mem_iff.2 (handler_accepts hc)),
      mapM_congr fun c hc => hchild c hc d]

theorem printAst_eq_render (build : Build) (t : AST) :
    printAst build t = render build build.printIndent0 t := by
  rw [printAst, AST.accept, acceptFuel_print build t.size t _ (Int.le_refl _)]
  show _ = renderFuel build t.size build.printIndent0 t
  cases renderFuel build t.size build.printIndent0 t <;> rfl

/-- `print_ast` of a tree that meets the parser's contract writes the same text
in any two builds that number the tags alike, print a `double` alike and start
from the same indent: in particular with assertions compiled in or not, and
whatever the base handlers answer. -/
theorem printAst_build_congr {build build' : Build} (h : build.PrintsAlike build')
    (hindent : build.printIndent0 = build'.printIndent0) {t : AST} (ht : t.WellFormed) :
    printAst build t = printAst build' t := by
  rw [printAst_eq_render, printAst_eq_render, hindent, render_build_congr h ht]

theorem printAst_build_congr_debug :
    Build.PrintsAlike ⟨true, fun _ => 0, fun _ => .error .assertion, fun _ => "", 0⟩
        ⟨false, fun _ => 0, fun _ => .ok false, fun _ => "", 0⟩ ∧
      (⟨true, fun _ => 0, fun _ => .error .assertion, fun _ => "", 0⟩ : Build).printIndent0 =
        (⟨false, fun _ => 0, fun _ => .ok false, fun _ => "", 0⟩ : Build).printIndent0 ∧
      (AST_BoolOp .Or [AST_UnaryOp .Not (AST_Name "a"),
        AST_Compare (AST_Name "b") [.Lt] [AST_Num .INT 1 "1" 0]]).WellFormed ∧
      printAst ⟨true, fun _ => 0, fun _ => .error .assertion, fun _ => "", 0⟩
          (AST_BoolOp .Or [AST_UnaryOp .Not (AST_Name "a"),
            AST_Compare (AST_Name "b") [.Lt] [AST_Num .INT 1 "1" 0]]) =
        printAst ⟨false, fun _ => 0, fun _ => .ok false, fun _ => "", 0⟩
          (AST_BoolOp .Or [AST_UnaryOp .Not (AST_Name "a"),
            AST_Compare (AST_Name "b") [.Lt] [AST_Num .INT 1 "1" 0]]) :=
  ⟨⟨rfl, rfl⟩, rfl, by decide,
    @printAst_build_congr ⟨true, fun _ => 0, fun _ => .error .assertion, fun _ => "", 0⟩
      ⟨false, fun _ => 0, fun _ => .ok false, fun _ => "", 0⟩
      ⟨rfl, rfl⟩ rfl _ (by decide)⟩

/-- The kinds whose handler starts lines of its own with `printIndent`. -/
def AST_TYPE.startsLines : AST_TYPE → Bool
  | .ClassDef | .ExceptHandler | .FunctionDef | .If | .Suite | .TryExcept | .TryFinally | .While
  | .With => true
  | _ => false

theorem printIndent_ne_acceptAt (v : List AST) (j : Int) : .printIndent ≠ acceptAt v j := by
  unfold acceptAt
  split <;> (try split) <;> simp

theorem printIndent_not_mem_boolOpSeparator (build : Build) (op : AST_TYPE) :
    .printIndent ∉ boolOpSeparator build op := by
  unfold boolOpSeparator
  split <;> try split
  all_goals simp

theorem printIndent_not_mem_unaryOpSymbol (build : Build) (op : AST_TYPE) :
    .printIndent ∉ unaryOpSymbol build op := by
  unfold unaryOpSymbol
  split <;> try split
  all_goals simp

theorem printIndent_not_mem_argumentSteps (args defaults : List AST) (x : Nat × AST) :
    .printIndent ∉ argumentSteps args defaults x := by
  unfold argumentSteps
  split
  split <;> simp [printIndent_ne_acceptAt]

theorem printIndent_not_mem_compareSteps (comparators : List AST) (x : Nat × AST_TYPE) :
    .printIndent ∉ compareSteps comparators x := by
  unfold compareSteps
  split
  split <;> simp [printIndent_ne_acceptAt]

theorem printIndent_mem_handler (build : Build) {n : AST}
    (h : .printIndent ∈ (ASTPrintVisitor.handler build n).1) : n.type.startsLines = true := by
  cases n <;> first | rfl | simp only [ASTPrintVisitor.handler] at h
  all_goals (repeat' split at h) <;> simp [lines, mem_separatedBy, printIndent_ne_acceptAt,
    printIndent_not_mem_boolOpSeparator, printIndent_not_mem_unaryOpSymbol,
    printIndent_not_mem_argumentSteps, printIndent_not_mem_compareSteps] at h

/-- Statements without `printIndent` write the same text from every indent when
the children they accept do. -/
theorem stepsText_indent_free {child : Int → AST → Except Fault String} {steps : List PrintStep}
    (hfree : .printIndent ∉ steps)
    (hchild : ∀ c, .accept c ∈ steps → ∀ d e, child d c = child e c)
    (d e : Int) : stepsText child d steps = stepsText child e steps := by
  induction steps generalizing d e with
  | nil => rfl
  | cons step steps inductionHypothesis =>
    have rest := inductionHypothesis (fun h => hfree (List.mem_cons_of_mem _ h))
      fun c hc => hchild c (List.mem_cons_of_mem _ hc)
    cases step with
    | write text => simp only [stepsText, rest d e]
    | printIndent => exact absurd (List.mem_cons_self _ _) hfree
    | shiftIndent delta => exact rest (d + delta) (e + delta)
    | accept c => simp only [stepsText, hchild c (List.mem_cons_self _ _) d e, rest d e]
    | fault f => rfl

/-- A tree with no class, def, except clause, if, suite, try, while or with
statement prints the same text from every indent. -/
theorem render_indent_free (build : Build) {t : AST} (ht : t.DictsPaired)
    (hfree : ∀ n ∈ t.preorder, n.type.startsLines = false) (d e : Int) :
    render build d t = render build e t := by
  induction t using children_induction generalizing d e with
  | step n inductionHypothesis =>
    have hperm := children_perm_fields n ht.self
    have hchild : ∀ c ∈ n.children, ∀ d e, render build d c = render build e c := fun c hc =>
      inductionHypothesis c hc (ht.child hc) fun m hm => hfree m (preorder_subset hc hm)
    have hnode : .printIndent ∉ (ASTPrintVisitor.handler build n).1 := fun h => by
      simpa [hfree n (mem_preorder_self n)] using printIndent_mem_handler build h
    rw [render_eq, render_eq,
      stepsText_indent_free hnode (fun c hc => hchild c (hperm.mem_iff.2 (handler_accepts hc))) d e,
      mapM_congr fun c hc => hchild c hc d e]

theorem render_indent_free_lambda :
    (AST_Assign [AST_Name "f"] (AST_Lambda (AST_arguments [AST_Name "x"] none none [])
      (AST_BinOp (AST_Name "x") .Add (AST_Num .INT 1 "1" 0)))).DictsPaired ∧
    (∀ n ∈ (AST_Assign [AST_Name "f"] (AST_Lambda (AST_arguments [AST_Name "x"] none none [])
      (AST_BinOp (AST_Name "x") .Add (AST_Num .INT 1 "1" 0)))).preorder,
        n.type.startsLines = false) ∧
    render ⟨false, fun _ => 0, fun _ => .ok false, fun _ => "", 0⟩ 0
        (AST_Assign [AST_Name "f"] (AST_Lambda (AST_arguments [AST_Name "x"] none none [])
          (AST_BinOp (AST_Name "x") .Add (AST_Num .INT 1 "1" 0)))) =
      render ⟨false, fun _ => 0, fun _ => .ok false, fun _ => "", 0⟩ 8
        (AST_Assign [AST_Name "f"] (AST_Lambda (AST_arguments [AST_Name "x"] none none [])
          (AST_BinOp (AST_Name "x") .Add (AST_Num .INT 1 "1" 0)))) :=
  ⟨by decide, by decide, render_indent_free _ (by decide) (by decide) 0 8⟩

theorem acceptAt_take {v : List AST} {n : Nat} {j : Int} (h : j < n) :
    acceptAt (v.take n) j = acceptAt v j := by
  unfold acceptAt
  split
  · rw [List.getElem?_take_of_lt (by omega)]
  · rfl

theorem separatedBy_congr {α : Type} {sep : List PrintStep} {item item' : α → List PrintStep}
    {xs : List α} (h : ∀ x ∈ xs, item x = item' x) :
    separatedBy sep item xs = separatedBy sep item' xs := by
  cases xs with
  | nil => rfl
  | cons x xs =>
    simp only [separatedBy, h x (List.mem_cons_self _ _)]
    congr 1
    exact List.flatMap_congr fun y hy => by rw [h y (List.mem_cons_of_mem _ hy)]

/-- `visit_compare` and `visit_dict` index the second vector by the first one's
indices and return true: comparators past the last operator and values past
the last key never reach the text. -/
theorem render_ignores_surplus (build : Build) (d : Int) (left : AST) (ops : List AST_TYPE)
    (comparators keys values : List AST) :
    render build d (AST_Compare left ops comparators) =
        render build d (AST_Compare left ops (comparators.take ops.length)) ∧
      render build d (AST_Dict keys values) =
        render build d (AST_Dict keys (values.take keys.length)) := by
  have compare : ASTPrintVisitor.handler build (AST_Compare left ops comparators) =
      ASTPrintVisitor.handler build (AST_Compare left ops (comparators.take ops.length)) := by
    simp only [ASTPrintVisitor.handler]
    congr 2
    refine List.flatMap_congr fun ⟨i, op⟩ hx => ?_
    have hi : i < ops.length := List.fst_lt_of_mem_enum hx
    simp only [compareSteps, acceptAt_take (by omega : (i : Int) < ops.length)]
  have dict : ASTPrintVisitor.handler build (AST_Dict keys values) =
      ASTPrintVisitor.handler build (AST_Dict keys (values.take keys.length)) := by
    simp only [ASTPrintVisitor.handler]
    congr 3
    refine separatedBy_congr fun ⟨i, key⟩ hx => ?_
    have hi : i < keys.length := List.fst_lt_of_mem_enum hx
    simp only [acceptAt_take (by omega : (i : Int) < keys.length)]
  constructor
  · rw [render_eq, render_eq, compare]
    rfl
  · rw [render_eq, render_eq, dict]
    rfl

end PystonAst
