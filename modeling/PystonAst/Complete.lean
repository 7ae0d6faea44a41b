import PystonAst.Traversal
import PystonAst.PrintSim

/-!
# Accepting and printing a well-formed tree completes

On a tree that meets the parser's contract no handler of `ASTPrintVisitor` holds
a faulting statement (`handler_no_fault`): every vector index it reads is in
range and every operator tag has its case. So `stepsText`, then `render`, then by
`accept_print` the visitor itself, finish with the indent where it started.
-/

namespace PystonAst

open AST

theorem fault_ne_acceptAt {v : List AST} {j : Int} (h0 : 0 ≤ j) (hj : j < v.length) (f : Fault) :
    PrintStep.fault f ≠ acceptAt v j := by
  rw [acceptAt, if_pos h0, List.getElem?_eq_getElem (by omega)]
  simp

theorem fault_not_mem_argumentSteps {args defaults : List AST} {i : Nat} {arg : AST}
    (hi : i < args.length) (f : Fault) :
    PrintStep.fault f ∉ argumentSteps args defaults (i, arg) := by
  unfold argumentSteps
  simp only [List.mem_cons, List.not_mem_nil, reduceCtorEq, false_or]
  split <;> simp
  refine fault_ne_acceptAt ?_ ?_ f <;> omega

/-- On a node that meets the contract no handler statement faults: the default
`visit_arguments` reads is at an index in `[0, ndefault)` whatever the lengths
of `args` and `defaults`, the Dict and Compare indices are bounded by the
vector they index, and every operator tag has its case. -/
theorem handler_no_fault (build : Build) {n : AST} (h : n.sound = true) (f : Fault) :
    PrintStep.fault f ∉ (ASTPrintVisitor.handler build n).1 := by
  cases n <;> simp only [ASTPrintVisitor.handler] <;> (repeat' split) <;>
    (try simp [lines, mem_separatedBy])
  all_goals simp [sound] at h
  case AST_arguments => exact fun i _ hi => fault_not_mem_argumentSteps (List.fst_lt_of_mem_enum hi) f
  case AST_BoolOp => rcases h with rfl | rfl <;> simp [mem_separatedBy, boolOpSeparator]
  case AST_Compare =>
    intro i op hi
    obtain ⟨symbol, hsymbol⟩ := getOpSymbol_ok_of_isCmpOp (h.2 op (List.snd_mem_of_mem_enum hi))
    have hlt := List.fst_lt_of_mem_enum hi
    simp only [compareSteps, hsymbol, List.mem_cons, List.not_mem_nil, or_false, not_or]
    exact ⟨by simp, fault_ne_acceptAt (by omega) (by simp at hlt; omega) f⟩
  case AST_Dict =>
    intro i _ hi
    have hlt := List.fst_lt_of_mem_enum hi
    exact fault_ne_acceptAt (by omega) (by simp at hlt; omega) f
  case AST_UnaryOp => rcases h with ((rfl | rfl) | rfl) | rfl <;> simp [unaryOpSymbol]
  case AST_TryFinally.isTrue hsole =>
    obtain ⟨s, rfl, -⟩ := soleOfType_eq_true.1 hsole
    exact fault_ne_acceptAt (Int.le_refl 0) (by simp) f

theorem stepsText_ok {child : Int → AST → Except Fault String} {steps : List PrintStep}
    (hchild : ∀ c, .accept c ∈ steps → ∀ e, ∃ text, child e c = .ok text)
    (hfault : ∀ f, .fault f ∉ steps) (d : Int) : ∃ text, stepsText child d steps = .ok text := by
  induction steps generalizing d with
  | nil => exact ⟨"", rfl⟩
  | cons step steps inductionHypothesis =>
    have rest := inductionHypothesis (fun c hc => hchild c (List.mem_cons_of_mem _ hc))
      fun f hf => hfault f (List.mem_cons_of_mem _ hf)
    cases step with
    | write text =>
      obtain ⟨out, hout⟩ := rest d
      exact ⟨text ++ out, by rw [stepsText, hout]; rfl⟩
    | printIndent =>
      obtain ⟨out, hout⟩ := rest d
      exact ⟨spaces d ++ out, by rw [stepsText, hout]; rfl⟩
    | shiftIndent delta => exact rest (d + delta)
    | accept c =>
      obtain ⟨text, htext⟩ := hchild c (List.mem_cons_self _ _) d
      obtain ⟨out, hout⟩ := rest d
      exact ⟨text ++ out, by rw [stepsText, htext, hout]; rfl⟩
    | fault f => exact absurd (List.mem_cons_self _ _) (hfault f)

theorem mapM_ok {α β : Type} {f : α → Except Fault β} :
    ∀ {l : List α}, (∀ x ∈ l, ∃ y, f x = .ok y) → ∃ ys, l.mapM f = .ok ys
  | [], _ => ⟨[], rfl⟩
  | x :: _, h => by
    obtain ⟨y, hy⟩ := h x (List.mem_cons_self _ _)
    obtain ⟨ys, hys⟩ := mapM_ok fun x' hx' => h x' (List.mem_cons_of_mem _ hx')
    exact ⟨y :: ys, by rw [List.mapM_cons, hy, hys]; rfl⟩

/-- `render` of a well-formed tree gives a text from every indent. -/
theorem render_ok (build : Build) {t : AST} (ht : t.WellFormed) (d : Int) :
    ∃ text, render build d t = .ok text := by
  induction t using children_induction generalizing d with
  | step n inductionHypothesis =>
    have hchild : ∀ c ∈ n.children, ∀ e, ∃ text, render build e c = .ok text :=
      fun c hc => inductionHypothesis c hc (ht.child hc)
    have hperm := children_perm_fields n (keysMatchValues_of_sound ht.self)
    obtain ⟨text, htext⟩ := stepsText_ok (fun c hc => hchild c (hperm.mem_iff.2 (handler_accepts hc)))
      (handler_no_fault build ht.self) d
    obtain ⟨texts, htexts⟩ := mapM_ok fun c hc => hchild c hc d
    rw [render_eq, htext]
    cases (ASTPrintVisitor.handler build n).2
    · exact ⟨text ++ String.join texts, by rw [htexts]; rfl⟩
    · exact ⟨text, rfl⟩

/-- On a tree that meets the parser's contract, `accept` with any visitor whose
handlers do not call `accept` and `print_ast` in any build both finish: no
vector read out of range, no absent child dereferenced, no abort or failed
assertion. -/
theorem accept_and_print_complete {t : AST} (ht : t.WellFormed) :
    (∀ {σ : Type} (handler : AST → σ → σ × Bool) (s : σ),
      ∃ s', (t.accept (ASTVisitor.ofHandler handler)).run s = .ok ((), s')) ∧
    ∀ build : Build, ∃ text, printAst build t = .ok text := by
  refine ⟨fun _ s => ⟨_, accept_ofHandler ht.dictsPaired s⟩, fun build => ?_⟩
  obtain ⟨text, htext⟩ := render_ok build ht build.printIndent0
  refine ⟨text, ?_⟩
  rw [printAst, AST.accept, acceptFuel_print build t.size t _ (Int.le_refl _),
    show renderFuel build t.size build.printIndent0 t = .ok text from htext]
  rfl

theorem accept_and_print_complete_defaults :
    (AST_Lambda (AST_arguments [AST_Name "x"] none none [AST_Name "a", AST_Name "b"])
      (AST_Name "x")).WellFormed ∧
    (∀ {σ : Type} (handler : AST → σ → σ × Bool) (s : σ),
      ∃ s', ((AST_Lambda (AST_arguments [AST_Name "x"] none none [AST_Name "a", AST_Name "b"])
        (AST_Name "x")).accept (ASTVisitor.ofHandler handler)).run s = .ok ((), s')) ∧
    ∀ build : Build, ∃ text, printAst build
      (AST_Lambda (AST_arguments [AST_Name "x"] none none [AST_Name "a", AST_Name "b"])
        (AST_Name "x")) = .ok text :=
  ⟨by decide, accept_and_print_complete (by decide)⟩

end PystonAst
