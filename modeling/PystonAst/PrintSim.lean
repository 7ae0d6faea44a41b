import PystonAst.Render

/-!
# The printer renders

`accept` with `ASTPrintVisitor` appends `render` to the stream and gives the
indent back (`accept_print`): the stateful visitor, with its nested `accept`
calls, computes the compositional text of `render`.
-/

namespace PystonAst

open AST

section Simulation

variable {accept : AST → VisitM PrintState Unit} {child : Int → AST → Except Fault String}

/-- What accepting a child does to the printer's state when it writes `child`'s
text. -/
def WritesText (accept : AST → VisitM PrintState Unit) (child : Int → AST → Except Fault String)
    (c : AST) : Prop :=
  ∀ st : PrintState, st.lowest ≤ st.indent →
    (accept c).run st = (fun text => ((), { st with stream := st.stream ++ text })) <$>
      child st.indent c

/-- Running statements appends their text and moves the indent by their net
shift, as long as no prefix takes the indent below `lowest`. -/
theorem run_steps {steps : List PrintStep} (hchild : ∀ c, .accept c ∈ steps → WritesText accept child c)
    (st : PrintState) (hst : st.lowest ≤ st.indent + lowPoint steps) :
    (steps.forM (PrintStep.run accept)).run st =
      (fun out => ((), { st with
        stream := st.stream ++ out
        indent := st.indent + netShift steps })) <$> stepsText child st.indent steps := by
  induction steps generalizing st with
  | nil => simp [stepsText]
  | cons step steps inductionHypothesis =>
    have rest := fun st => inductionHypothesis
      (fun c hc => hchild c (List.mem_cons_of_mem _ hc)) st
    have hlow := lowPoint_nonpos steps
    simp only [lowPoint_cons] at hst
    cases step with
    | write text =>
      have := rest { st with stream := st.stream ++ text } (by simp at hst ⊢; omega)
      simp only [List.forM, PrintStep.run, StateT.run_bind, stepsText, netShift_cons,
        PrintStep.shift_write, Int.zero_add, StateT.run_modify, pure_bind, this, Functor.map_map,
        String.append_assoc]
    | printIndent =>
      have := rest { st with stream := st.stream ++ spaces st.indent } (by simp at hst ⊢; omega)
      simp only [List.forM, PrintStep.run, StateT.run_bind, stepsText, netShift_cons,
        PrintStep.shift_printIndent, Int.zero_add, StateT.run_modify, pure_bind, this,
        Functor.map_map, String.append_assoc]
    | shiftIndent delta =>
      simp only [PrintStep.shift_shiftIndent] at hst
      have hmin : min st.lowest (st.indent + delta) = st.lowest := by omega
      have := rest { st with indent := st.indent + delta } (by simp; omega)
      simp only [List.forM, PrintStep.run, StateT.run_bind, stepsText, netShift_cons,
        PrintStep.shift_shiftIndent, StateT.run_modify, pure_bind, hmin, this, Int.add_assoc]
    | accept c =>
      have hc := hchild c (List.mem_cons_self _ _) st (by simp at hst; omega)
      simp only [List.forM, StateT.run_bind, PrintStep.run, hc, stepsText, netShift_cons,
        PrintStep.shift_accept, Int.zero_add]
      cases child st.indent c with
      | error f => rfl
      | ok text =>
        have := rest { st with stream := st.stream ++ text } (by simp at hst ⊢; omega)
        show StateT.run (steps.forM (PrintStep.run accept)) { st with stream := st.stream ++ text } =
          _ <$> ((text ++ ·) <$> stepsText child st.indent steps)
        simp only [this, Functor.map_map, String.append_assoc]
    | fault f => rfl

/-- Accepting children one after the other appends their texts. -/
theorem forM_writes {cs : List AST} (h : ∀ c ∈ cs, WritesText accept child c)
    (st : PrintState) (hst : st.lowest ≤ st.indent) :
    (cs.forM accept).run st =
      (fun texts => ((), { st with stream := st.stream ++ String.join texts })) <$>
        cs.mapM (child st.indent) := by
  induction cs generalizing st with
  | nil =>
    show (pure ((), st) : Except Fault _) = _ <$> (pure [] : Except Fault (List String))
    simp [Functor.map, Except.map, pure, Except.pure]
  | cons c cs inductionHypothesis =>
    simp only [List.forM, StateT.run_bind, h c (List.mem_cons_self _ _) st hst, List.mapM_cons]
    cases child st.indent c with
    | error f => rfl
    | ok text =>
      have := inductionHypothesis (fun c' hc' => h c' (List.mem_cons_of_mem _ hc'))
        { st with stream := st.stream ++ text } hst
      show StateT.run (cs.forM accept) { st with stream := st.stream ++ text } = _
      rw [this]
      cases cs.mapM (child st.indent) <;> simp [Functor.map, Except.map, bind, Except.bind,
        pure, Except.pure, String.append_assoc]

end Simulation

theorem ASTPrintVisitor_visit_run (build : Build) (accept : AST → VisitM PrintState Unit)
    (n : AST) (st : PrintState) :
    ((ASTPrintVisitor build).visit accept n).run st =
      (fun p => ((ASTPrintVisitor.handler build n).2, p.2)) <$>
        ((ASTPrintVisitor.handler build n).1.forM (PrintStep.run accept)).run st := by
  simp only [ASTPrintVisitor, StateT.run_bind, StateT.run_pure, bind_pure_comp, StateT.run_map]

/-- Accepting with `ASTPrintVisitor` writes `renderFuel`'s text at every bound. -/
theorem acceptFuel_print (build : Build) :
    ∀ (fuel : Nat) (n : AST), WritesText (acceptFuel (ASTPrintVisitor build) fuel)
      (renderFuel build fuel) n
  | 0, _, _, _ => rfl
  | fuel + 1, n, st, hst => by
    obtain ⟨hnet, hlow⟩ := handler_shifts build n
    have steps := @run_steps _ _ (ASTPrintVisitor.handler build n).1
      (fun c _ => acceptFuel_print build fuel c) st (by rw [hlow]; omega)
    rw [hnet, Int.add_zero] at steps
    rw [acceptFuel, StateT.run_bind, ASTPrintVisitor_visit_run, steps]
    simp only [renderFuel, hnet, Int.add_zero]
    cases stepsText (renderFuel build fuel) st.indent (ASTPrintVisitor.handler build n).1 with
    | error f => rfl
    | ok text =>
      cases hskip : (ASTPrintVisitor.handler build n).2
      · rw [visitChildren_eq _ _ (keysMatchValues_of_not_skip hskip)]
        have := @forM_writes _ _ n.children (fun c _ => acceptFuel_print build fuel c)
          { st with stream := st.stream ++ text } hst
        show StateT.run (n.children.forM (acceptFuel (ASTPrintVisitor build) fuel))
            { st with stream := st.stream ++ text } =
          _ <$> ((text ++ String.join ·) <$> n.children.mapM (renderFuel build fuel st.indent))
        simp only [this, Functor.map_map, String.append_assoc]
      · rfl

/-- `ASTPrintVisitor`'s handlers accept nothing but declared children. -/
theorem ASTPrintVisitor_local (build : Build) : (ASTPrintVisitor build).Local := by
  intro accept accept' n h
  have agree : ∀ step ∈ (ASTPrintVisitor.handler build n).1,
      PrintStep.run accept step = PrintStep.run accept' step := by
    rintro (_ | _ | _ | c | _) hs <;> try rfl
    exact h c (handler_accepts hs)
  simp only [ASTPrintVisitor, forM_congr agree]

theorem map_stream_injective {d : Int} {x y : Except Fault String}
    (h : (fun text => ((), (⟨"" ++ text, d, d⟩ : PrintState))) <$> x =
      (fun text => ((), (⟨"" ++ text, d, d⟩ : PrintState))) <$> y) : x = y := by
  cases x <;> cases y <;> simp_all [Functor.map, Except.map]

/-- Any bound of at least the node count renders the same text. -/
theorem renderFuel_eq_render (build : Build) {fuel : Nat} {n : AST} (h : n.size ≤ fuel) (d : Int) :
    renderFuel build fuel d n = render build d n := by
  have bounded := acceptFuel_print build fuel n ⟨"", d, d⟩ (Int.le_refl d)
  rw [acceptFuel_eq_accept (ASTPrintVisitor_local build) h, AST.accept,
    acceptFuel_print build n.size n _ (Int.le_refl d)] at bounded
  exact (map_stream_injective bounded).symm

theorem mapM_congr {α β : Type} {f g : α → Except Fault β} :
    ∀ {l : List α}, (∀ x ∈ l, f x = g x) → l.mapM f = l.mapM g
  | [], _ => rfl
  | x :: _, h => by
    simp only [List.mapM_cons, h x (List.mem_cons_self _ _),
      mapM_congr fun x' hx' => h x' (List.mem_cons_of_mem _ hx')]

theorem stepsText_congr {child child' : Int → AST → Except Fault String} {steps : List PrintStep}
    (h : ∀ c, .accept c ∈ steps → ∀ e, child e c = child' e c) (d : Int) :
    stepsText child d steps = stepsText child' d steps := by
  induction steps generalizing d with
  | nil => rfl
  | cons step steps inductionHypothesis =>
    have rest := inductionHypothesis fun c hc => h c (List.mem_cons_of_mem _ hc)
    cases step <;> simp only [stepsText, rest]
    case accept c => rw [h c (List.mem_cons_self _ _)]

/-- `render` one node at a time: the handler's text, then, unless it skips, the
children's texts from the same indent. -/
theorem render_eq (build : Build) (d : Int) (n : AST) :
    render build d n =
      stepsText (render build) d (ASTPrintVisitor.handler build n).1 >>= fun text =>
        if (ASTPrintVisitor.handler build n).2 then pure text
        else (text ++ String.join ·) <$> n.children.mapM (render build d) := by
  obtain ⟨k, hk⟩ := exists_size_eq_succ n
  have agree : ∀ c ∈ n.fields, ∀ e, renderFuel build k e c = render build e c :=
    fun c hc => renderFuel_eq_render build (by have := size_lt_of_mem_fields hc; omega)
  rw [render, hk, renderFuel, (handler_shifts build n).1, Int.add_zero,
    stepsText_congr fun c hc => agree c (handler_accepts hc),
    mapM_congr fun c hc => agree c (mem_fields_of_mem_children hc) d]
  simp only [bind_pure_comp]

end PystonAst
