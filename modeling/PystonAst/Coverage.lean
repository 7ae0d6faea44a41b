import PystonAst.Complete

/-!
# Which handlers the printer runs

`LoggedPrintVisitor` is `ASTPrintVisitor` with a log of the nodes whose handler
runs; at every bound it writes what the printer writes and logs `printCallsFuel`
(`acceptFuel_logged`). On a well-formed tree that log is, up to order, the
tree's nodes outside the slots the printer never prints (`printedPreorder`,
`accept_logs_printed`): no handler prints its children and also leaves them to
`accept`, and no other slot is dropped. So the printer runs each node's handler
at most once, and every node's exactly when no node has a slot its handler
leaves out (`printCalls_cover`); on `lambda *a, **k: 0` the Name handlers of
`*a` and `**k` do not run.
-/

namespace PystonAst

open AST

/-- A handler statement run on the printer's state paired with a log; only
`accept` reaches the log. -/
def PrintStep.runLogged (accept : AST → VisitM (PrintState × List AST) Unit) :
    PrintStep → VisitM (PrintState × List AST) Unit
  | .accept c => accept c
  | step => fun s => (fun p => (p.1, (p.2, s.2))) <$> (step.run fun _ => pure ()).run s.1

/-- `ASTPrintVisitor` logging the node of each handler it runs. -/
def LoggedPrintVisitor (build : Build) : ASTVisitor (PrintState × List AST) where
  visit accept n := do
    modify fun s => (s.1, s.2 ++ [n])
    (ASTPrintVisitor.handler build n).1.forM (PrintStep.runLogged accept)
    pure (ASTPrintVisitor.handler build n).2

/-- The nodes whose handler runs for one statement, given those of each child. -/
def PrintStep.calls (calls : AST → List AST) : PrintStep → List AST
  | .accept c => calls c
  | _ => []

/-- The nodes whose handler runs for the children `steps` accept. -/
def stepsCalls (calls : AST → List AST) (steps : List PrintStep) : List AST :=
  steps.flatMap (PrintStep.calls calls)

/-- The children `steps` accept, in order. -/
def accepted (steps : List PrintStep) : List AST :=
  stepsCalls (fun c => [c]) steps

/-- `printCalls` with an explicit bound on the depth. -/
def printCallsFuel (build : Build) : Nat → AST → List AST
  | 0, _ => []
  | fuel + 1, n =>
    n :: (stepsCalls (printCallsFuel build fuel) (ASTPrintVisitor.handler build n).1 ++
      if (ASTPrintVisitor.handler build n).2 then [] else
        n.children.flatMap (printCallsFuel build fuel))

/-- The nodes whose Print handler runs when `accept` prints `n`, in the order
the handlers start. -/
def printCalls (build : Build) (n : AST) : List AST :=
  printCallsFuel build n.size n

section Accepted

variable {calls : AST → List AST}

@[simp] theorem accepted_nil : accepted [] = [] := rfl

@[simp] theorem accepted_cons (step : PrintStep) (steps : List PrintStep) :
    accepted (step :: steps) = step.calls (fun c => [c]) ++ accepted steps := rfl

@[simp] theorem calls_accept (c : AST) : (PrintStep.accept c).calls calls = calls c := rfl

@[simp] theorem calls_write (text : String) : (PrintStep.write text).calls calls = [] := rfl

@[simp] theorem calls_printIndent : PrintStep.printIndent.calls calls = [] := rfl

@[simp] theorem calls_shiftIndent (delta : Int) : (PrintStep.shiftIndent delta).calls calls = [] :=
  rfl

@[simp] theorem calls_fault (f : Fault) : (PrintStep.fault f).calls calls = [] := rfl

@[simp] theorem accepted_append (steps steps' : List PrintStep) :
    accepted (steps ++ steps') = accepted steps ++ accepted steps' :=
  List.flatMap_append _ _ _

@[simp] theorem accepted_flatMap {α : Type} (l : List α) (f : α → List PrintStep) :
    accepted (l.flatMap f) = l.flatMap fun x => accepted (f x) :=
  List.flatMap_assoc _ _ _

@[simp] theorem accepted_map_accept (l : List AST) : accepted (l.map .accept) = l := by
  induction l <;> simp_all

theorem accepted_separatedBy {α : Type} {sep : List PrintStep} (hsep : accepted sep = [])
    (item : α → List PrintStep) (xs : List α) :
    accepted (separatedBy sep item xs) = xs.flatMap fun x => accepted (item x) := by
  cases xs <;> simp [separatedBy, hsep]

@[simp] theorem accepted_lines (body : List AST) : accepted (lines body) = body := by
  simp [lines]

@[simp] theorem accepted_boolOpSeparator (build : Build) (op : AST_TYPE) :
    accepted (boolOpSeparator build op) = [] := by
  unfold boolOpSeparator
  split <;> try split
  all_goals rfl

@[simp] theorem accepted_unaryOpSymbol (build : Build) (op : AST_TYPE) :
    accepted (unaryOpSymbol build op) = [] := by
  unfold unaryOpSymbol
  split <;> try split
  all_goals rfl

@[simp] theorem calls_acceptAt (v : List AST) (j : Int) :
    (acceptAt v j).calls (fun c => [c]) = if 0 ≤ j then v[j.toNat]?.toList else [] := by
  unfold acceptAt
  split
  · split <;> rename_i hget <;> simp [hget]
  · rfl

theorem accepted_argumentSteps (args defaults : List AST) (i : Nat) (arg : AST) :
    accepted (argumentSteps args defaults (i, arg)) =
      arg :: if args.length ≤ defaults.length + i then
        defaults[defaults.length + i - args.length]?.toList else [] := by
  by_cases h : args.length ≤ defaults.length + i
  · have hcond : (i : Int) ≥ args.length - defaults.length := by omega
    have hidx : (i : Int) - (args.length - defaults.length) =
        (defaults.length + i - args.length : Nat) := by omega
    simp only [argumentSteps, if_pos hcond, if_pos h, hidx, accepted_cons, accepted_nil,
      calls_accept, calls_write, calls_acceptAt, if_pos (Int.ofNat_nonneg _), Int.toNat_ofNat,
      List.nil_append, List.singleton_append, List.append_nil]
  · have hcond : ¬(i : Int) ≥ args.length - defaults.length := by omega
    simp only [argumentSteps, if_neg hcond, if_neg h, accepted_cons, accepted_nil, calls_accept,
      List.singleton_append]

theorem accepted_compareSteps (comparators : List AST) (i : Nat) {op : AST_TYPE}
    (hop : isCmpOp op = true) :
    accepted (compareSteps comparators (i, op)) = comparators[i]?.toList := by
  obtain ⟨symbol, hsymbol⟩ := getOpSymbol_ok_of_isCmpOp hop
  simp [compareSteps, hsymbol, Int.ofNat_nonneg]

theorem stepsCalls_eq (steps : List PrintStep) :
    stepsCalls calls steps = (accepted steps).flatMap calls := by
  rw [accepted, stepsCalls, stepsCalls, List.flatMap_assoc]
  congr 1
  funext step
  cases step <;> simp

end Accepted

/-- The child slots whose handler `print_ast` runs from a node: all of them,
less `vararg`, `kwarg` and the defaults before the last `args.size` of an
`arguments` node (`visit_arguments` prints neither), `locals` of an `exec` with
no `globals` (`visit_exec` reads it only under `globals`), and every slot of a
`for` loop (`visit_for` writes a placeholder). -/
def AST.printedFields : AST → List AST
  | AST_arguments args _ _ defaults => args ++ defaults.drop (defaults.length - args.length)
  | AST_Exec body globals locals =>
    body :: globals.toList ++ if globals.isSome then locals.toList else []
  | AST_For .. => []
  | n => n.fields

section Indexed

/-- `visit_dict`'s loop accepts `keys[i]`, then `values[i]`. -/
theorem enumFrom_flatMap_interleave {values : List AST} {item : Nat × AST → List AST}
    (hitem : ∀ i key, item (i, key) = key :: values[i]?.toList) :
    ∀ (keys : List AST) (k : Nat), k + keys.length = values.length →
      (keys.enumFrom k).flatMap item = interleave keys (values.drop k)
  | [], _, _ => by cases values.drop _ <;> rfl
  | key :: keys, k, hk => by
    have hlt : k < values.length := by simp at hk; omega
    rw [List.enumFrom_cons, List.flatMap_cons, hitem,
      enumFrom_flatMap_interleave hitem keys (k + 1) (by simp at hk; omega),
      List.drop_eq_getElem_cons hlt, List.getElem?_eq_getElem hlt]
    rfl

/-- `visit_compare`'s loop accepts `comparators[i]` for each `ops[i]`. -/
theorem enumFrom_flatMap_drop {α : Type} {v : List AST} {item : Nat × α → List AST} :
    ∀ (xs : List α), (∀ i, ∀ x ∈ xs, item (i, x) = v[i]?.toList) →
      ∀ k, k + xs.length = v.length →
      (xs.enumFrom k).flatMap item = v.drop k
  | [], _, k, hk => by simp at hk; simp [← hk]
  | x :: xs, hitem, k, hk => by
    rw [List.enumFrom_cons, List.flatMap_cons, hitem k x (List.mem_cons_self _ _),
      enumFrom_flatMap_drop xs (fun i x' hx' => hitem i x' (List.mem_cons_of_mem _ hx')) (k + 1)
        (by simp at hk; omega)]
    exact List.drop_eq_getElem?_toList_append.symm

/-- `visit_arguments`'s loop accepts `args[i]`, then, for the last `ndefault`
indices, `defaults[i - (nargs - ndefault)]`: the last `nargs` defaults, each
once. -/
theorem enumFrom_flatMap_defaults {n : Nat} {defaults : List AST} {item : Nat × AST → List AST}
    (hitem : ∀ i arg, item (i, arg) = arg :: if n ≤ defaults.length + i then
      defaults[defaults.length + i - n]?.toList else []) :
    ∀ (args : List AST) (k : Nat), k + args.length = n →
      ((args.enumFrom k).flatMap item).Perm (args ++ defaults.drop (defaults.length + k - n))
  | [], k, hk => by simp at hk; simp [← hk]
  | arg :: args, k, hk => by
    have rest := enumFrom_flatMap_defaults hitem args (k + 1) (by simp at hk; omega)
    have hdrop :
        (if n ≤ defaults.length + k then defaults[defaults.length + k - n]?.toList else []) ++
          defaults.drop (defaults.length + (k + 1) - n) =
        defaults.drop (defaults.length + k - n) := by
      split
      · rw [show defaults.length + (k + 1) - n = defaults.length + k - n + 1 by omega]
        exact List.drop_eq_getElem?_toList_append.symm
      · rw [show defaults.length + (k + 1) - n = defaults.length + k - n by omega]
        rfl
    rw [List.enumFrom_cons, List.flatMap_cons, hitem, List.cons_append, List.cons_append, ← hdrop]
    exact .cons arg ((rest.append_left _).trans (List.perm_append_comm_assoc _ _ _))

end Indexed

theorem ite_length_eq_zero {α : Type} (l : List α) :
    (if l.length = 0 then [] else l) = l := by
  split <;> simp_all

/-- One handler: the children it accepts, then the children `accept` visits
when it does not skip, are its node's printed slots, each once. -/
theorem handler_accepted_perm (build : Build) {n : AST} (h : n.sound = true) :
    (accepted (ASTPrintVisitor.handler build n).1 ++
      if (ASTPrintVisitor.handler build n).2 then [] else n.children).Perm n.printedFields := by
  cases n <;> simp only [ASTPrintVisitor.handler, printedFields, fields, children, accepted_append,
    accepted_cons, accepted_nil, accepted_flatMap, accepted_lines, accepted_map_accept,
    accepted_boolOpSeparator, accepted_unaryOpSymbol, calls_accept, calls_write, calls_printIndent,
    calls_shiftIndent, calls_fault, accepted_separatedBy, apply_ite accepted, if_true, if_false,
    List.append_nil, List.nil_append, List.cons_append, List.singleton_append, List.append_assoc,
    List.flatMap_singleton', ite_length_eq_zero, Bool.false_eq_true, ne_eq, ite_not, ite_self,
    List.flatMap_eq_nil_iff, implies_true]
  all_goals try exact .refl _
  case AST_arguments args _ _ defaults =>
    exact enumFrom_flatMap_defaults (accepted_argumentSteps args defaults) args 0 (Nat.zero_add _)
  case AST_Compare left ops comparators =>
    simp only [sound, Bool.and_eq_true, beq_iff_eq, List.all_eq_true] at h
    exact .cons left (.of_eq (enumFrom_flatMap_drop ops
      (fun i op hop => accepted_compareSteps comparators i (h.2 op hop)) 0 (by omega)))
  case AST_Dict keys values =>
    simp only [sound, beq_iff_eq] at h
    exact .trans (.of_eq (enumFrom_flatMap_interleave (fun i key => by simp [Int.ofNat_nonneg])
      keys 0 (by omega))) (interleave_perm h)
  case AST_ClassDef => exact List.perm_append_comm.trans (.of_eq (List.append_assoc _ _ _))
  case AST_FunctionDef => exact List.perm_append_comm
  case AST_IfExp => exact .swap _ _ _
  case AST_Global => exact .of_eq (by simp)
  case AST_Exec globals _ => cases globals <;> simp
  case AST_Invoke normal exc => cases normal <;> cases exc <;> simp_all [sound]
  case AST_TryFinally hsole =>
    split
    · obtain ⟨s, rfl, -⟩ := soleOfType_eq_true.1 ‹_›
      rfl
    · rfl

section Logged

variable {acceptL : AST → VisitM (PrintState × List AST) Unit}
  {accept : AST → VisitM PrintState Unit} {calls : AST → List AST}

/-- Accepting `c` with the logged visitor does what the plain one does and
appends `calls c` to the log. -/
def LogsCalls (acceptL : AST → VisitM (PrintState × List AST) Unit)
    (accept : AST → VisitM PrintState Unit) (calls : AST → List AST) (c : AST) : Prop :=
  ∀ st log, (acceptL c).run (st, log) =
    (fun p => (p.1, (p.2, log ++ calls c))) <$> (accept c).run st

theorem logs_bind {x : VisitM (PrintState × List AST) Unit} {y : VisitM PrintState Unit}
    {rest : VisitM (PrintState × List AST) Unit} {rest' : VisitM PrintState Unit}
    {first second : List AST}
    (hx : ∀ st log, x.run (st, log) = (fun p => (p.1, (p.2, log ++ first))) <$> y.run st)
    (hrest : ∀ st log,
      rest.run (st, log) = (fun p => (p.1, (p.2, log ++ second))) <$> rest'.run st)
    (st : PrintState) (log : List AST) :
    (x >>= fun _ => rest).run (st, log) =
      (fun p => (p.1, (p.2, log ++ (first ++ second)))) <$> (y >>= fun _ => rest').run st := by
  simp only [StateT.run_bind, hx]
  cases y.run st with
  | error f => rfl
  | ok p =>
    show rest.run (p.2, log ++ first) =
      (fun q => (q.1, (q.2, log ++ (first ++ second)))) <$> rest'.run p.2
    rw [hrest, List.append_assoc]

theorem logs_steps {steps : List PrintStep}
    (h : ∀ c, .accept c ∈ steps → LogsCalls acceptL accept calls c) (st : PrintState)
    (log : List AST) :
    (steps.forM (PrintStep.runLogged acceptL)).run (st, log) =
      (fun p => (p.1, (p.2, log ++ stepsCalls calls steps))) <$>
        (steps.forM (PrintStep.run accept)).run st := by
  induction steps generalizing st log with
  | nil => simp [stepsCalls]
  | cons step steps inductionHypothesis =>
    have rest := inductionHypothesis fun c hc => h c (List.mem_cons_of_mem _ hc)
    simp only [List.forM, stepsCalls, List.flatMap_cons]
    cases step with
    | accept c => exact logs_bind (h c (List.mem_cons_self _ _)) rest st log
    | _ => exact logs_bind (fun _ _ => by simp [PrintStep.runLogged]; rfl) rest st log

/-- Accepting children one after the other logs their calls in turn. -/
theorem logs_children {cs : List AST} (h : ∀ c ∈ cs, LogsCalls acceptL accept calls c)
    (st : PrintState) (log : List AST) :
    (cs.forM acceptL).run (st, log) =
      (fun p => (p.1, (p.2, log ++ cs.flatMap calls))) <$> (cs.forM accept).run st := by
  induction cs generalizing st log with
  | nil => simp
  | cons c cs inductionHypothesis =>
    exact logs_bind (h c (List.mem_cons_self _ _))
      (inductionHypothesis fun c' hc' => h c' (List.mem_cons_of_mem _ hc')) st log

end Logged

theorem LoggedPrintVisitor_visit_run (build : Build)
    (accept : AST → VisitM (PrintState × List AST) Unit) (n : AST) (st : PrintState)
    (log : List AST) :
    ((LoggedPrintVisitor build).visit accept n).run (st, log) =
      (fun p => ((ASTPrintVisitor.handler build n).2, p.2)) <$>
        ((ASTPrintVisitor.handler build n).1.forM (PrintStep.runLogged accept)).run
          (st, log ++ [n]) := by
  simp only [LoggedPrintVisitor, StateT.run_bind, StateT.run_modify, StateT.run_pure,
    bind_pure_comp, StateT.run_map, pure_bind]

/-- The logged visitor does at every bound what `ASTPrintVisitor` does, and logs
`printCallsFuel`. -/
theorem acceptFuel_logged (build : Build) :
    ∀ (fuel : Nat) (n : AST), LogsCalls (acceptFuel (LoggedPrintVisitor build) fuel)
      (acceptFuel (ASTPrintVisitor build) fuel) (printCallsFuel build fuel) n
  | 0, _, _, _ => rfl
  | fuel + 1, n, st, log => by
    rw [acceptFuel, acceptFuel, StateT.run_bind, StateT.run_bind, LoggedPrintVisitor_visit_run,
      ASTPrintVisitor_visit_run, logs_steps fun c _ => acceptFuel_logged build fuel c]
    cases ((ASTPrintVisitor.handler build n).1.forM
        (PrintStep.run (acceptFuel (ASTPrintVisitor build) fuel))).run st with
    | error f => rfl
    | ok p =>
      cases hskip : (ASTPrintVisitor.handler build n).2
      · rw [visitChildren_eq _ _ (keysMatchValues_of_not_skip hskip),
          visitChildren_eq _ _ (keysMatchValues_of_not_skip hskip)]
        show StateT.run (n.children.forM (acceptFuel (LoggedPrintVisitor build) fuel)) (p.2, _) =
          (fun q => (q.1, (q.2, log ++ printCallsFuel build (fuel + 1) n))) <$>
            StateT.run (n.children.forM (acceptFuel (ASTPrintVisitor build) fuel)) p.2
        rw [logs_children fun c _ => acceptFuel_logged build fuel c]
        simp [printCallsFuel, hskip]
      · simp [printCallsFuel, hskip]
        rfl

theorem printedFields_sublist (n : AST) : n.printedFields.Sublist n.fields := by
  cases n <;> try exact .refl _
  case AST_arguments args _ _ defaults =>
    simp only [printedFields, fields]
    simp only [List.append_assoc]
    exact .append_left ((List.drop_sublist _ _).trans
      ((List.sublist_append_right _ _).trans (List.sublist_append_right _ _))) args
  case AST_Exec globals _ => exact .cons₂ _ (.append_left (by split <;> simp) _)
  case AST_For => exact List.nil_sublist _

/-- `preorder` with the handlers' omissions: the nodes of a tree whose handler
`print_ast` runs, up to order. -/
def AST.printedPreorderFuel : Nat → AST → List AST
  | 0, _ => []
  | fuel + 1, n => n :: n.printedFields.flatMap (printedPreorderFuel fuel)

def AST.printedPreorder (n : AST) : List AST := printedPreorderFuel n.size n

/-- A run of handlers follows `printedPreorder`: each handler adds its node,
and the children it accepts or leaves to `accept` are its printed slots. -/
theorem printCallsFuel_perm (build : Build) :
    ∀ (fuel : Nat) {n : AST}, n.WellFormed →
      (printCallsFuel build fuel n).Perm (printedPreorderFuel fuel n)
  | 0, _, _ => .nil
  | fuel + 1, n, hn => by
    rw [printCallsFuel, printedPreorderFuel, stepsCalls_eq]
    refine .cons n ?_
    calc (accepted (ASTPrintVisitor.handler build n).1).flatMap (printCallsFuel build fuel) ++
          (if (ASTPrintVisitor.handler build n).2 then [] else
            n.children.flatMap (printCallsFuel build fuel))
        = (accepted (ASTPrintVisitor.handler build n).1 ++
            if (ASTPrintVisitor.handler build n).2 then [] else n.children).flatMap
              (printCallsFuel build fuel) := by split <;> simp
      List.Perm _ (n.printedFields.flatMap (printCallsFuel build fuel)) :=
        (handler_accepted_perm build hn.self).flatMap_right _
      List.Perm _ (n.printedFields.flatMap (printedPreorderFuel fuel)) :=
        .flatMap_left _ fun c hc =>
          printCallsFuel_perm build fuel (hn.field ((printedFields_sublist n).subset hc))

theorem printCalls_perm (build : Build) {t : AST} (ht : t.WellFormed) :
    (printCalls build t).Perm t.printedPreorder :=
  printCallsFuel_perm build t.size ht

/-- `print_ast` with a log of the handlers it runs: on a well-formed tree it
writes `render`'s text, gives the indent back, and runs the handler of exactly
the nodes of `printedPreorder`, each once. -/
theorem accept_logs_printed (build : Build) {t : AST} (ht : t.WellFormed) (stream : String)
    (d : Int) (log : List AST) :
    ∃ text calls, (t.accept (LoggedPrintVisitor build)).run (⟨stream, d, d⟩, log) =
        .ok ((), (⟨stream ++ text, d, d⟩, log ++ calls)) ∧
      render build d t = .ok text ∧ calls.Perm t.printedPreorder := by
  obtain ⟨text, htext⟩ := render_ok build ht d
  refine ⟨text, printCalls build t, ?_, htext, printCalls_perm build ht⟩
  rw [AST.accept, acceptFuel_logged, acceptFuel_print build t.size t _ (Int.le_refl d),
    show renderFuel build t.size d t = .ok text from htext]
  rfl

theorem accept_logs_printed_def :
    (AST_FunctionDef (some "f")
      (AST_arguments [AST_Name "x"] (some (AST_Name "rest")) none
        [AST_Num .INT 1 "1" 0, AST_Num .INT 2 "2" 0]) [AST_Pass] []).WellFormed ∧
    ∃ text calls, ((AST_FunctionDef (some "f")
      (AST_arguments [AST_Name "x"] (some (AST_Name "rest")) none
        [AST_Num .INT 1 "1" 0, AST_Num .INT 2 "2" 0]) [AST_Pass] []).accept
          (LoggedPrintVisitor ⟨false, fun _ => 0, fun _ => .ok false, fun _ => "", 0⟩)).run
            (⟨"", 0, 0⟩, []) = .ok ((), (⟨"" ++ text, 0, 0⟩, [] ++ calls)) ∧
      render ⟨false, fun _ => 0, fun _ => .ok false, fun _ => "", 0⟩ 0
        (AST_FunctionDef (some "f")
          (AST_arguments [AST_Name "x"] (some (AST_Name "rest")) none
            [AST_Num .INT 1 "1" 0, AST_Num .INT 2 "2" 0]) [AST_Pass] []) = .ok text ∧
      calls.Perm (AST_FunctionDef (some "f")
        (AST_arguments [AST_Name "x"] (some (AST_Name "rest")) none
          [AST_Num .INT 1 "1" 0, AST_Num .INT 2 "2" 0]) [AST_Pass] []).printedPreorder :=
  ⟨by decide, accept_logs_printed _ (by decide) "" 0 []⟩

/-- A node whose handler prints every slot it has. -/
def AST.printsAllFields : AST → Bool
  | AST_arguments args vararg kwarg defaults =>
    vararg.isNone && kwarg.isNone && defaults.length ≤ args.length
  | AST_Exec _ globals locals => globals.isSome || locals.isNone
  | AST_For .. => false
  | _ => true

theorem printedFields_eq_fields {n : AST} (h : n.printsAllFields = true) :
    n.printedFields = n.fields := by
  cases n <;> try rfl
  case AST_arguments => simp_all [printsAllFields, printedFields, fields]
  case AST_Exec globals _ =>
    cases globals <;> simp_all [printsAllFields, printedFields, fields, children]
  case AST_For => exact Bool.noConfusion h

theorem printedFields_length_lt {n : AST} (h : n.printsAllFields = false) :
    n.printedFields.length < n.fields.length := by
  cases n <;> try exact Bool.noConfusion h
  case AST_arguments vararg kwarg _ =>
    simp only [printsAllFields, Bool.and_eq_false_iff, decide_eq_false_iff_not, Nat.not_le] at h
    simp only [printedFields, fields, List.length_append, List.length_drop]
    cases vararg <;> cases kwarg <;> simp_all <;> omega
  case AST_Exec globals locals =>
    cases globals <;> cases locals <;> simp_all [printsAllFields, printedFields, fields, children]
  case AST_For => simp [printedFields, fields]

section Lengths

variable {α β : Type} {f g : α → List β}

theorem sublist_flatMap_right {l₁ l₂ : List α} (hs : l₁.Sublist l₂) (f : α → List β) :
    (l₁.flatMap f).Sublist (l₂.flatMap f) := by
  induction hs with
  | slnil => exact .slnil
  | cons a _ ih => exact ih.trans (List.sublist_append_right _ _)
  | cons₂ a _ ih => exact ih.append_left _

theorem subperm_flatMap_left (l : List α) (h : ∀ a ∈ l, (f a).Subperm (g a)) :
    (l.flatMap f).Subperm (l.flatMap g) := by
  induction l with
  | nil => exact .refl _
  | cons a l inductionHypothesis =>
    have rest := inductionHypothesis fun b hb => h b (List.mem_cons_of_mem _ hb)
    exact ((List.subperm_append_right _).2 (h a (List.mem_cons_self _ _))).trans
      ((List.subperm_append_left _).2 rest)

theorem length_flatMap_le {l₁ l₂ : List α} (hs : l₁.Sublist l₂)
    (hfg : ∀ a ∈ l₁, (f a).length ≤ (g a).length) :
    (l₁.flatMap f).length ≤ (l₂.flatMap g).length := by
  induction hs with
  | slnil => exact Nat.le_refl _
  | cons a _ ih =>
    simp only [List.flatMap_cons, List.length_append]
    have := ih hfg
    omega
  | cons₂ a _ ih =>
    simp only [List.flatMap_cons, List.length_append]
    have := hfg a (List.mem_cons_self _ _)
    have := ih fun b hb => hfg b (List.mem_cons_of_mem _ hb)
    omega

/-- Dropping an element whose block is not empty, or shrinking one block,
shortens a flatMap. -/
theorem length_flatMap_lt {l₁ l₂ : List α} (hs : l₁.Sublist l₂)
    (hfg : ∀ a ∈ l₁, (f a).length ≤ (g a).length) (hpos : ∀ a ∈ l₂, 0 < (g a).length)
    (hlt : l₁.length < l₂.length ∨ ∃ a ∈ l₁, (f a).length < (g a).length) :
    (l₁.flatMap f).length < (l₂.flatMap g).length := by
  induction hs with
  | slnil => simp at hlt
  | cons a hs _ =>
    simp only [List.flatMap_cons, List.length_append]
    have := length_flatMap_le hs hfg
    have := hpos a (List.mem_cons_self _ _)
    omega
  | cons₂ a hs ih =>
    simp only [List.flatMap_cons, List.length_append]
    have hfg' := fun b hb => hfg b (List.mem_cons_of_mem a hb)
    have hpos' := fun b hb => hpos b (List.mem_cons_of_mem a hb)
    have := hfg a (List.mem_cons_self _ _)
    have := length_flatMap_le hs hfg'
    rcases hlt with hlt | ⟨b, hb, hlt⟩
    · have := ih hfg' hpos' (.inl (by simpa using hlt))
      omega
    · rcases List.mem_cons.1 hb with rfl | hb
      · omega
      · have := ih hfg' hpos' (.inr ⟨b, hb, hlt⟩)
        omega

end Lengths

theorem AST.DictsPaired.field {c t : AST} (h : t.DictsPaired) (hc : c ∈ t.fields) :
    c.DictsPaired :=
  h.child ((children_perm_fields t h.self).mem_iff.2 hc)

theorem preorder_perm_fields {n : AST} (h : n.keysMatchValues = true) :
    n.preorder.Perm (n :: n.fields.flatMap preorder) := by
  rw [preorder_eq]
  exact .cons n ((children_perm_fields n h).flatMap_right _)

theorem printedPreorderFuel_eq {fuel : Nat} {n : AST} (h : n.size ≤ fuel) :
    printedPreorderFuel fuel n = n.printedPreorder := by
  induction n using fields_induction generalizing fuel with
  | step n inductionHypothesis =>
    obtain ⟨k, hk⟩ := exists_size_eq_succ n
    obtain ⟨f, rfl⟩ : ∃ f, fuel = f + 1 := ⟨fuel - 1, by omega⟩
    have printed_eq : ∀ g, k ≤ g → n.printedFields.flatMap (printedPreorderFuel g) =
        n.printedFields.flatMap printedPreorder := fun g hg =>
      List.flatMap_congr fun c hc => inductionHypothesis c ((printedFields_sublist n).subset hc)
        (by have := size_lt_of_mem_fields ((printedFields_sublist n).subset hc); omega)
    simp only [printedPreorder, hk, printedPreorderFuel, printed_eq f (by omega),
      printed_eq k le_rfl]

theorem printedPreorder_eq (n : AST) :
    n.printedPreorder = n :: n.printedFields.flatMap printedPreorder := by
  obtain ⟨k, hk⟩ := exists_size_eq_succ n
  conv_lhs => rw [printedPreorder, hk, printedPreorderFuel]
  congr 1
  exact List.flatMap_congr fun c hc => printedPreorderFuel_eq
    (by have := size_lt_of_mem_fields ((printedFields_sublist n).subset hc); omega)

/-- No node of the tree is printed more often than it occurs. -/
theorem printedPreorder_subperm {t : AST} (ht : t.DictsPaired) :
    t.printedPreorder.Subperm t.preorder := by
  induction t using fields_induction with
  | step n inductionHypothesis =>
    have children := subperm_flatMap_left n.printedFields fun c hc =>
      inductionHypothesis c ((printedFields_sublist n).subset hc)
        (ht.field ((printedFields_sublist n).subset hc))
    rw [printedPreorder_eq]
    exact ((List.subperm_cons n).2 (children.trans
      (sublist_flatMap_right (printedFields_sublist n) _).subperm)).trans
        (preorder_perm_fields ht.self).symm.subperm

theorem printedPreorder_perm {t : AST} (ht : t.DictsPaired)
    (hall : ∀ n ∈ t.preorder, n.printsAllFields = true) :
    t.printedPreorder.Perm t.preorder := by
  induction t using fields_induction with
  | step n inductionHypothesis =>
    have hsub : ∀ c ∈ n.fields, c.preorder ⊆ n.preorder := fun c hc =>
      preorder_subset ((children_perm_fields n ht.self).mem_iff.2 hc)
    rw [printedPreorder_eq, printedFields_eq_fields (hall n (mem_preorder_self n))]
    exact (List.Perm.cons n (.flatMap_left _ fun c hc => inductionHypothesis c hc (ht.field hc)
      fun m hm => hall m (hsub c hc hm))).trans (preorder_perm_fields ht.self).symm

theorem printedPreorder_length_lt {t m : AST} (ht : t.DictsPaired) (hm : m ∈ t.preorder)
    (hmiss : m.printsAllFields = false) : t.printedPreorder.length < t.preorder.length := by
  induction t using fields_induction with
  | step n inductionHypothesis =>
    rw [printedPreorder_eq, (preorder_perm_fields ht.self).length_eq, List.length_cons,
      List.length_cons]
    refine Nat.succ_lt_succ (length_flatMap_lt (printedFields_sublist n)
      (fun c hc =>
        (printedPreorder_subperm (ht.field ((printedFields_sublist n).subset hc))).length_le)
      (fun c _ => List.length_pos_of_mem (mem_preorder_self c)) ?_)
    cases hn : n.printsAllFields
    · exact .inl (printedFields_length_lt hn)
    · rw [preorder_eq] at hm
      rcases List.mem_cons.1 hm with rfl | hm
      · exact absurd hn (by simp [hmiss])
      obtain ⟨c, hc, hmc⟩ := List.mem_flatMap.1 hm
      rw [printedFields_eq_fields hn]
      exact .inr ⟨c, mem_fields_of_mem_children hc, inductionHypothesis c
        (mem_fields_of_mem_children hc) (ht.child hc) hmc⟩

/-- The printer runs each node's handler at most once, and runs every node's
handler exactly when no node has a slot its handler leaves out: no `for` loop,
no `*args` or `**kwargs`, no more defaults than arguments, no `exec` locals
without globals. -/
theorem printCalls_cover (build : Build) {t : AST} (ht : t.WellFormed) :
    (printCalls build t).Subperm t.preorder ∧
      ((printCalls build t).Perm t.preorder ↔
        ∀ n ∈ t.preorder, n.printsAllFields = true) := by
  have hcalls := printCalls_perm build ht
  refine ⟨hcalls.subperm.trans (printedPreorder_subperm ht.dictsPaired),
    fun hperm n hn => ?_, fun hall => hcalls.trans (printedPreorder_perm ht.dictsPaired hall)⟩
  cases hmiss : n.printsAllFields
  · have := printedPreorder_length_lt ht.dictsPaired hn hmiss
    have := hcalls.length_eq
    have := hperm.length_eq
    omega
  · rfl

theorem printCalls_cover_for :
    (AST_Module [AST_For (AST_Name "i") (AST_Name "xs") [AST_Pass] []]).WellFormed ∧
    (printCalls ⟨false, fun _ => 0, fun _ => .ok false, fun _ => "", 0⟩
        (AST_Module [AST_For (AST_Name "i") (AST_Name "xs") [AST_Pass] []])).Subperm
      (AST_Module [AST_For (AST_Name "i") (AST_Name "xs") [AST_Pass] []]).preorder ∧
    ((printCalls ⟨false, fun _ => 0, fun _ => .ok false, fun _ => "", 0⟩
        (AST_Module [AST_For (AST_Name "i") (AST_Name "xs") [AST_Pass] []])).Perm
      (AST_Module [AST_For (AST_Name "i") (AST_Name "xs") [AST_Pass] []]).preorder ↔
      ∀ n ∈ (AST_Module [AST_For (AST_Name "i") (AST_Name "xs") [AST_Pass] []]).preorder,
        n.printsAllFields = true) :=
  ⟨by decide, printCalls_cover _ (by decide)⟩

/-- `print_ast` of a module holding a `for` loop runs two handlers, not five. -/
example : (printCalls ⟨false, fun _ => 0, fun _ => .ok false, fun _ => "", 0⟩
    (AST_Module [AST_For (AST_Name "i") (AST_Name "xs") [AST_Pass] []])).length = 2 := by
  decide

/-- `visit_arguments` prints neither `vararg` nor `kwarg` and returns true, so
their Name handlers never run: `lambda *a, **k: 0` prints as `lambda : 0`, and
only the Lambda, arguments and Num handlers run. -/
theorem print_lambda_drops_varargs :
    printAst ⟨false, fun _ => 0, fun _ => .ok false, fun _ => "", 0⟩
        (AST_Lambda (AST_arguments [] (some (AST_Name "a")) (some (AST_Name "k")) [])
          (AST_Num .INT 0 "0" 0)) =
      .ok "lambda : 0" ∧
    printCalls ⟨false, fun _ => 0, fun _ => .ok false, fun _ => "", 0⟩
        (AST_Lambda (AST_arguments [] (some (AST_Name "a")) (some (AST_Name "k")) [])
          (AST_Num .INT 0 "0" 0)) =
      [AST_Lambda (AST_arguments [] (some (AST_Name "a")) (some (AST_Name "k")) [])
          (AST_Num .INT 0 "0" 0),
        AST_arguments [] (some (AST_Name "a")) (some (AST_Name "k")) [],
        AST_Num .INT 0 "0" 0] :=
  ⟨rfl, rfl⟩

end PystonAst
