import PystonAst.Tree

/-!
# The visitor protocol

`accept` calls the node's own handler; unless the handler answers `skip`, it then
accepts the node's children as the node's class lists them (`visitChildren`,
one arm per `accept` method of ast.cpp). A handler may itself accept children of
its node through the function it is given, as `ASTPrintVisitor` does. The
recursion carries an explicit bound; `AST.accept` gives it the tree's node
count, which no run exhausts (`acceptFuel_eq_accept`).
-/

namespace PystonAst

open AST

/-- A visitor's computation: its own state, and a way to stop. -/
abbrev VisitM (σ : Type) := StateT σ (Except Fault)

/-- `ASTVisitor`: the handler for a node's kind, selected by the node's class.
It is given the function that accepts a node with this same visitor, and
answers `skip`. -/
structure ASTVisitor (σ : Type) where
  visit : (AST → VisitM σ Unit) → AST → VisitM σ Bool

section

variable {σ : Type}

/-- `visitVector`: accept each node of the vector in order. -/
def visitVector (accept : AST → VisitM σ Unit) (vec : List AST) : VisitM σ Unit :=
  vec.forM accept

/-- `if (child) child->accept(v);` -/
def visitOptional (accept : AST → VisitM σ Unit) : Option AST → VisitM σ Unit
  | some child => accept child
  | none => pure ()

/-- The loop of `AST_Dict::accept`: `keys[i]`, then `values[i]`, for every index
of `keys`; `values[i]` past the end of `values` is an invalid read. -/
def visitKeysValues (accept : AST → VisitM σ Unit) : List AST → List AST → VisitM σ Unit
  | [], _ => pure ()
  | key :: keys, values => do
    accept key
    match values with
    | value :: values => do
      accept value
      visitKeysValues accept keys values
    | [] => throw .outOfRange

/-- What each class's `accept` method does once its handler has not skipped. -/
def visitChildren (accept : AST → VisitM σ Unit) : AST → VisitM σ Unit
  | AST_alias .. => pure ()
  | AST_arguments args vararg kwarg defaults => do
    visitVector accept defaults
    visitVector accept args
    visitOptional accept kwarg
    visitOptional accept vararg
  | AST_Assert test msg => do
    accept test
    visitOptional accept msg
  | AST_Assign targets value => do
    accept value
    visitVector accept targets
  | AST_Attribute value _ => accept value
  | AST_AugAssign target _ value => do
    accept value
    accept target
  | AST_AugBinOp left _ right => do
    accept left
    accept right
  | AST_BinOp left _ right => do
    accept left
    accept right
  | AST_BoolOp _ values => visitVector accept values
  | AST_Break => pure ()
  | AST_Call func args keywords starargs kwargs => do
    accept func
    visitVector accept args
    visitVector accept keywords
    visitOptional accept starargs
    visitOptional accept kwargs
  | AST_ClassDef _ bases body decorator_list => do
    visitVector accept bases
    visitVector accept decorator_list
    visitVector accept body
  | AST_ClsAttribute value _ => accept value
  | AST_Compare left _ comparators => do
    accept left
    visitVector accept comparators
  | AST_comprehension target iter ifs => do
    accept target
    accept iter
    visitVector accept ifs
  | AST_Continue => pure ()
  | AST_Delete targets => visitVector accept targets
  | AST_Dict keys values => visitKeysValues accept keys values
  | AST_DictComp key value generators => do
    visitVector accept generators
    accept value
    accept key
  | AST_Ellipsis => pure ()
  | AST_ExceptHandler type name body => do
    visitOptional accept type
    visitOptional accept name
    visitVector accept body
  | AST_Exec body globals locals => do
    accept body
    visitOptional accept globals
    visitOptional accept locals
  | AST_Expr value => accept value
  | AST_Expression body => accept body
  | AST_ExtSlice dims => visitVector accept dims
  | AST_For target iter body orelse => do
    accept iter
    accept target
    visitVector accept body
    visitVector accept orelse
  | AST_FunctionDef _ args body decorator_list => do
    visitVector accept decorator_list
    accept args
    visitVector accept body
  | AST_GeneratorExp elt generators => do
    visitVector accept generators
    accept elt
  | AST_Global _ => pure ()
  | AST_If test body orelse => do
    accept test
    visitVector accept body
    visitVector accept orelse
  | AST_IfExp test body orelse => do
    accept test
    accept body
    accept orelse
  | AST_Import names => visitVector accept names
  | AST_ImportFrom _ names => visitVector accept names
  | AST_Index value => accept value
  | AST_Invoke stmt _ _ => accept stmt
  | AST_keyword _ value => accept value
  | AST_Lambda args body => do
    accept args
    accept body
  | AST_LangPrimitive _ args => visitVector accept args
  | AST_List elts => visitVector accept elts
  | AST_ListComp elt generators => do
    visitVector accept generators
    accept elt
  | AST_Module body => visitVector accept body
  | AST_Name _ => pure ()
  | AST_Num .. => pure ()
  | AST_Pass => pure ()
  | AST_Print dest values _ => do
    visitOptional accept dest
    visitVector accept values
  | AST_Raise arg0 arg1 arg2 => do
    visitOptional accept arg0
    visitOptional accept arg1
    visitOptional accept arg2
  | AST_Repr value => accept value
  | AST_Return value => visitOptional accept value
  | AST_Set elts => visitVector accept elts
  | AST_SetComp elt generators => do
    visitVector accept generators
    accept elt
  | AST_Slice lower upper step => do
    visitOptional accept lower
    visitOptional accept upper
    visitOptional accept step
  | AST_Str .. => pure ()
  | AST_Subscript value slice => do
    accept value
    accept slice
  | AST_Suite body => visitVector accept body
  | AST_TryExcept body handlers orelse => do
    visitVector accept body
    visitVector accept orelse
    visitVector accept handlers
  | AST_TryFinally body finalbody => do
    visitVector accept body
    visitVector accept finalbody
  | AST_Tuple elts => visitVector accept elts
  | AST_UnaryOp _ operand => accept operand
  | AST_While test body orelse => do
    accept test
    visitVector accept body
    visitVector accept orelse
  | AST_With context_expr optional_vars body => do
    accept context_expr
    visitOptional accept optional_vars
    visitVector accept body
  | AST_Yield value => visitOptional accept value

/-- `accept` with an explicit bound on the nesting of calls. -/
def acceptFuel (v : ASTVisitor σ) : Nat → AST → VisitM σ Unit
  | 0, _ => throw .outOfFuel
  | fuel + 1, n => do
    let skip ← v.visit (acceptFuel v fuel) n
    if skip then pure () else visitChildren (acceptFuel v fuel) n

/-- `node->accept(v)`. -/
def AST.accept (n : AST) (v : ASTVisitor σ) : VisitM σ Unit := acceptFuel v n.size n

theorem visitOptional_eq (accept : AST → VisitM σ Unit) (child : Option AST) :
    visitOptional accept child = child.toList.forM accept := by
  cases child <;> simp [visitOptional]

theorem visitKeysValues_eq (accept : AST → VisitM σ Unit) :
    ∀ {keys values : List AST}, keys.length = values.length →
      visitKeysValues accept keys values = (interleave keys values).forM accept
  | [], [], _ => rfl
  | _ :: _, _ :: _, h => by
    simp [visitKeysValues, interleave, visitKeysValues_eq accept (Nat.succ.inj h)]

/-- Once the handler has not skipped, `accept` visits `children` in order. -/
theorem visitChildren_eq (accept : AST → VisitM σ Unit) (n : AST)
    (h : n.keysMatchValues = true) : visitChildren accept n = n.children.forM accept := by
  cases n
  case AST_Dict keys values =>
    exact visitKeysValues_eq accept (by simpa [keysMatchValues] using h)
  all_goals simp [visitChildren, children, visitVector, visitOptional_eq, List.forM_append]

theorem forM_congr {α : Type} {accept accept' : α → VisitM σ Unit} :
    ∀ {nodes : List α}, (∀ c ∈ nodes, accept c = accept' c) →
      nodes.forM accept = nodes.forM accept'
  | [], _ => rfl
  | c :: _, h => by
    rw [List.forM, List.forM, h c (List.mem_cons_self _ _),
      forM_congr fun c' hc' => h c' (List.mem_cons_of_mem _ hc')]

theorem visitKeysValues_congr {accept accept' : AST → VisitM σ Unit} :
    ∀ {keys values : List AST}, (∀ c ∈ keys ++ values, accept c = accept' c) →
      visitKeysValues accept keys values = visitKeysValues accept' keys values
  | [], _, _ => rfl
  | key :: keys, [], h => by simp [visitKeysValues, h key]
  | key :: keys, value :: values, h => by
    have rest : visitKeysValues accept keys values = visitKeysValues accept' keys values :=
      visitKeysValues_congr fun c hc => h c (by simp at hc ⊢; tauto)
    simp only [visitKeysValues, h key (by simp), h value (by simp), rest]

/-- `visitChildren` accepts nothing but declared children. -/
theorem visitChildren_congr {accept accept' : AST → VisitM σ Unit} {n : AST}
    (h : ∀ c ∈ n.fields, accept c = accept' c) :
    visitChildren accept n = visitChildren accept' n := by
  cases hn : n.keysMatchValues
  · cases n
    case AST_Dict => exact visitKeysValues_congr h
    all_goals simp [keysMatchValues] at hn
  · rw [visitChildren_eq _ _ hn, visitChildren_eq _ _ hn]
    exact forM_congr fun c hc => h c (mem_fields_of_mem_children hc)

/-- A visitor whose handlers accept nothing but declared children of their
node. -/
def ASTVisitor.Local (v : ASTVisitor σ) : Prop :=
  ∀ (accept accept' : AST → VisitM σ Unit) (n : AST),
    (∀ c ∈ n.fields, accept c = accept' c) → v.visit accept n = v.visit accept' n

theorem exists_size_eq_succ (n : AST) : ∃ k, n.size = k + 1 :=
  ⟨_, (Nat.succ_pred_eq_of_pos (size_pos n)).symm⟩

/-- Any bound of at least the node count gives `accept`: the bound is never
exhausted. -/
theorem acceptFuel_eq_accept {v : ASTVisitor σ} (hv : v.Local) {fuel : Nat} {n : AST}
    (h : n.size ≤ fuel) : acceptFuel v fuel n = n.accept v := by
  induction n using fields_induction generalizing fuel with
  | step n inductionHypothesis =>
    obtain ⟨k, hk⟩ := exists_size_eq_succ n
    obtain ⟨f, rfl⟩ : ∃ f, fuel = f + 1 := ⟨fuel - 1, by omega⟩
    have agree : ∀ g, k ≤ g → ∀ c ∈ n.fields, acceptFuel v g c = c.accept v :=
      fun g hg c hc => inductionHypothesis c hc (by have := size_lt_of_mem_fields hc; omega)
    have agree' : ∀ c ∈ n.fields, acceptFuel v f c = acceptFuel v k c :=
      fun c hc => (agree f (by omega) c hc).trans (agree k le_rfl c hc).symm
    rw [AST.accept, hk]
    simp only [acceptFuel, hv _ _ n agree', visitChildren_congr agree']

/-- `accept` runs the node's handler, and unless it skips, accepts the children
as the node's class lists them. -/
theorem accept_eq {v : ASTVisitor σ} (hv : v.Local) (n : AST) :
    n.accept v = v.visit (·.accept v) n >>= fun skip =>
      if skip then pure () else visitChildren (·.accept v) n := by
  obtain ⟨k, hk⟩ := exists_size_eq_succ n
  have agree : ∀ c ∈ n.fields, acceptFuel v k c = c.accept v :=
    fun c hc => acceptFuel_eq_accept hv (by have := size_lt_of_mem_fields hc; omega)
  rw [AST.accept, hk]
  simp only [acceptFuel, hv _ _ n agree, visitChildren_congr agree]

/-- Two visitors whose handlers agree on every node of a tree accept it alike. -/
theorem accept_congr {v v' : ASTVisitor σ} (hv : v.Local) (hv' : v'.Local) {t : AST}
    (ht : t.DictsPaired) (h : ∀ n ∈ t.preorder, ∀ accept, v.visit accept n = v'.visit accept n) :
    t.accept v = t.accept v' := by
  induction t using children_induction with
  | step n inductionHypothesis =>
    have agree : ∀ c ∈ n.fields, c.accept v = c.accept v' := fun c hc =>
      have hc' : c ∈ n.children := (children_perm_fields n ht.self).mem_iff.2 hc
      inductionHypothesis c hc' (ht.child hc') fun m hm => h m (preorder_subset hc' hm)
    rw [accept_eq hv, accept_eq hv', h n (mem_preorder_self n), hv' _ _ n agree,
      visitChildren_congr agree]

/-- A visitor whose handlers do not call `accept`: each is a function of the
visitor's state and the node, giving the new state and `skip`. -/
def ASTVisitor.ofHandler (handler : AST → σ → σ × Bool) : ASTVisitor σ where
  visit _ n := modifyGet fun s => ((handler n s).2, (handler n s).1)

theorem ASTVisitor.ofHandler_local (handler : AST → σ → σ × Bool) :
    (ASTVisitor.ofHandler handler).Local :=
  fun _ _ _ _ => rfl

end

end PystonAst
