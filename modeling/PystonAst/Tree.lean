import PystonAst.Operators
import Mathlib.Data.List.Perm.Basic

/-!
# Children, paths and the parser's contract

`children n` lists the children of `n` in the order its `accept` method visits
them; `fields n` lists the same child slots in declaration order. The two agree
up to order (`children_perm_fields`): no `accept` method forgets or repeats a
slot. A node of a tree is reached by a path of indices into `children`, and
`preorder` lists the nodes of a tree parent first.

`sound` is the part of the parser's contract that ast.cpp relies on beyond the
presence of required children, which the type already guarantees.
-/

namespace PystonAst

/-- `keys[0], values[0], keys[1], values[1], ...`, as far as both lists go. -/
def interleave {α : Type} : List α → List α → List α
  | k :: ks, v :: vs => k :: v :: interleave ks vs
  | _, _ => []

theorem mem_of_mem_interleave {α : Type} {x : α} :
    ∀ {ks vs : List α}, x ∈ interleave ks vs → x ∈ ks ∨ x ∈ vs
  | _ :: _, _ :: _, h => by
    simp only [interleave, List.mem_cons] at h
    rcases h with rfl | rfl | h
    · simp
    · simp
    · rcases mem_of_mem_interleave h with h | h <;> simp [h]
  | [], _, h | _ :: _, [], h => by simp [interleave] at h

theorem interleave_perm {α : Type} :
    ∀ {ks vs : List α}, ks.length = vs.length → (interleave ks vs).Perm (ks ++ vs)
  | [], [], _ => .refl _
  | k :: ks, v :: vs, h => by
    simp only [interleave, List.cons_append]
    refine .cons k ?_
    exact ((interleave_perm (by simpa using h)).cons v).trans List.perm_middle.symm

namespace AST

/-- The children of a node in the order its `accept` method visits them. -/
def children : AST → List AST
  | AST_alias .. => []
  | AST_arguments args vararg kwarg defaults => defaults ++ args ++ kwarg.toList ++ vararg.toList
  | AST_Assert test msg => test :: msg.toList
  | AST_Assign targets value => value :: targets
  | AST_Attribute value _ => [value]
  | AST_AugAssign target _ value => [value, target]
  | AST_AugBinOp left _ right => [left, right]
  | AST_BinOp left _ right => [left, right]
  | AST_BoolOp _ values => values
  | AST_Break => []
  | AST_Call func args keywords starargs kwargs =>
    func :: args ++ keywords ++ starargs.toList ++ kwargs.toList
  | AST_ClassDef _ bases body decorator_list => bases ++ decorator_list ++ body
  | AST_ClsAttribute value _ => [value]
  | AST_Compare left _ comparators => left :: comparators
  | AST_comprehension target iter ifs => target :: iter :: ifs
  | AST_Continue => []
  | AST_Delete targets => targets
  | AST_Dict keys values => interleave keys values
  | AST_DictComp key value generators => generators ++ [value, key]
  | AST_Ellipsis => []
  | AST_ExceptHandler type name body => type.toList ++ name.toList ++ body
  | AST_Exec body globals locals => body :: globals.toList ++ locals.toList
  | AST_Expr value => [value]
  | AST_Expression body => [body]
  | AST_ExtSlice dims => dims
  | AST_For target iter body orelse => iter :: target :: body ++ orelse
  | AST_FunctionDef _ args body decorator_list => decorator_list ++ args :: body
  | AST_GeneratorExp elt generators => generators ++ [elt]
  | AST_Global _ => []
  | AST_If test body orelse => test :: body ++ orelse
  | AST_IfExp test body orelse => [test, body, orelse]
  | AST_Import names => names
  | AST_ImportFrom _ names => names
  | AST_Index value => [value]
  | AST_Invoke stmt _ _ => [stmt]
  | AST_keyword _ value => [value]
  | AST_Lambda args body => [args, body]
  | AST_LangPrimitive _ args => args
  | AST_List elts => elts
  | AST_ListComp elt generators => generators ++ [elt]
  | AST_Module body => body
  | AST_Name _ => []
  | AST_Num .. => []
  | AST_Pass => []
  | AST_Print dest values _ => dest.toList ++ values
  | AST_Raise arg0 arg1 arg2 => arg0.toList ++ arg1.toList ++ arg2.toList
  | AST_Repr value => [value]
  | AST_Return value => value.toList
  | AST_Set elts => elts
  | AST_SetComp elt generators => generators ++ [elt]
  | AST_Slice lower upper step => lower.toList ++ upper.toList ++ step.toList
  | AST_Str .. => []
  | AST_Subscript value slice => [value, slice]
  | AST_Suite body => body
  | AST_TryExcept body handlers orelse => body ++ orelse ++ handlers
  | AST_TryFinally body finalbody => body ++ finalbody
  | AST_Tuple elts => elts
  | AST_UnaryOp _ operand => [operand]
  | AST_While test body orelse => test :: body ++ orelse
  | AST_With context_expr optional_vars body => context_expr :: optional_vars.toList ++ body
  | AST_Yield value => value.toList

/-- The child slots of a node in the order they are declared. -/
def fields : AST → List AST
  | AST_arguments args vararg kwarg defaults => args ++ vararg.toList ++ kwarg.toList ++ defaults
  | AST_Assign targets value => targets ++ [value]
  | AST_AugAssign target _ value => [target, value]
  | AST_ClassDef _ bases body decorator_list => bases ++ body ++ decorator_list
  | AST_comprehension target iter ifs => target :: iter :: ifs
  | AST_Dict keys values => keys ++ values
  | AST_DictComp key value generators => key :: value :: generators
  | AST_For target iter body orelse => target :: iter :: body ++ orelse
  | AST_FunctionDef _ args body decorator_list => args :: body ++ decorator_list
  | AST_GeneratorExp elt generators => elt :: generators
  | AST_ListComp elt generators => elt :: generators
  | AST_SetComp elt generators => elt :: generators
  | AST_TryExcept body handlers orelse => body ++ handlers ++ orelse
  | n => n.children

/-- A Dict node has as many values as keys. -/
def keysMatchValues : AST → Bool
  | AST_Dict keys values => keys.length == values.length
  | _ => true

/-- `accept` visits every declared child slot exactly once. -/
theorem children_perm_fields (n : AST) (h : n.keysMatchValues = true) :
    n.children.Perm n.fields := by
  cases n <;> simp only [children, fields, List.cons_append, List.append_assoc] <;>
    simp only [keysMatchValues, beq_iff_eq] at h
  case AST_arguments args vararg kwarg defaults =>
    refine List.perm_append_comm.trans ?_
    simpa only [List.append_assoc] using .append_left args (List.perm_append_comm_assoc _ _ _)
  case AST_Assign => exact List.perm_append_singleton _ _ |>.symm
  case AST_AugAssign => exact .swap _ _ _
  case AST_ClassDef => exact .append_left _ List.perm_append_comm
  case AST_Dict => exact interleave_perm h
  case AST_DictComp key value generators =>
    exact List.perm_append_comm.trans (.trans (by simp) (.swap _ _ _))
  case AST_For => exact .swap _ _ _
  case AST_FunctionDef _ args body decorator_list =>
    exact List.perm_append_comm.trans (by simp)
  case AST_GeneratorExp | AST_ListComp | AST_SetComp => exact List.perm_append_singleton _ _
  case AST_TryExcept => exact .append_left _ List.perm_append_comm
  all_goals exact .refl _

mutual
/-- The number of nodes of a tree. -/
def size : AST → Nat
  | AST_alias .. => 1
  | AST_arguments args vararg kwarg defaults =>
    1 + sizes args + sizeOpt vararg + sizeOpt kwarg + sizes defaults
  | AST_Assert test msg => 1 + test.size + sizeOpt msg
  | AST_Assign targets value => 1 + sizes targets + value.size
  | AST_Attribute value _ => 1 + value.size
  | AST_AugAssign target _ value => 1 + target.size + value.size
  | AST_AugBinOp left _ right => 1 + left.size + right.size
  | AST_BinOp left _ right => 1 + left.size + right.size
  | AST_BoolOp _ values => 1 + sizes values
  | AST_Break => 1
  | AST_Call func args keywords starargs kwargs =>
    1 + func.size + sizes args + sizes keywords + sizeOpt starargs + sizeOpt kwargs
  | AST_ClassDef _ bases body decorator_list =>
    1 + sizes bases + sizes body + sizes decorator_list
  | AST_ClsAttribute value _ => 1 + value.size
  | AST_Compare left _ comparators => 1 + left.size + sizes comparators
  | AST_comprehension target iter ifs => 1 + target.size + iter.size + sizes ifs
  | AST_Continue => 1
  | AST_Delete targets => 1 + sizes targets
  | AST_Dict keys values => 1 + sizes keys + sizes values
  | AST_DictComp key value generators => 1 + key.size + value.size + sizes generators
  | AST_Ellipsis => 1
  | AST_ExceptHandler type name body => 1 + sizeOpt type + sizeOpt name + sizes body
  | AST_Exec body globals locals => 1 + body.size + sizeOpt globals + sizeOpt locals
  | AST_Expr value => 1 + value.size
  | AST_Expression body => 1 + body.size
  | AST_ExtSlice dims => 1 + sizes dims
  | AST_For target iter body orelse => 1 + target.size + iter.size + sizes body + sizes orelse
  | AST_FunctionDef _ args body decorator_list =>
    1 + args.size + sizes body + sizes decorator_list
  | AST_GeneratorExp elt generators => 1 + elt.size + sizes generators
  | AST_Global _ => 1
  | AST_If test body orelse => 1 + test.size + sizes body + sizes orelse
  | AST_IfExp test body orelse => 1 + test.size + body.size + orelse.size
  | AST_Import names => 1 + sizes names
  | AST_ImportFrom _ names => 1 + sizes names
  | AST_Index value => 1 + value.size
  | AST_Invoke stmt _ _ => 1 + stmt.size
  | AST_keyword _ value => 1 + value.size
  | AST_Lambda args body => 1 + args.size + body.size
  | AST_LangPrimitive _ args => 1 + sizes args
  | AST_List elts => 1 + sizes elts
  | AST_ListComp elt generators => 1 + elt.size + sizes generators
  | AST_Module body => 1 + sizes body
  | AST_Name _ => 1
  | AST_Num .. => 1
  | AST_Pass => 1
  | AST_Print dest values _ => 1 + sizeOpt dest + sizes values
  | AST_Raise arg0 arg1 arg2 => 1 + sizeOpt arg0 + sizeOpt arg1 + sizeOpt arg2
  | AST_Repr value => 1 + value.size
  | AST_Return value => 1 + sizeOpt value
  | AST_Set elts => 1 + sizes elts
  | AST_SetComp elt generators => 1 + elt.size + sizes generators
  | AST_Slice lower upper step => 1 + sizeOpt lower + sizeOpt upper + sizeOpt step
  | AST_Str .. => 1
  | AST_Subscript value slice => 1 + value.size + slice.size
  | AST_Suite body => 1 + sizes body
  | AST_TryExcept body handlers orelse => 1 + sizes body + sizes handlers + sizes orelse
  | AST_TryFinally body finalbody => 1 + sizes body + sizes finalbody
  | AST_Tuple elts => 1 + sizes elts
  | AST_UnaryOp _ operand => 1 + operand.size
  | AST_While test body orelse => 1 + test.size + sizes body + sizes orelse
  | AST_With context_expr optional_vars body =>
    1 + context_expr.size + sizeOpt optional_vars + sizes body
  | AST_Yield value => 1 + sizeOpt value

def sizes : List AST → Nat
  | [] => 0
  | c :: cs => c.size + sizes cs

def sizeOpt : Option AST → Nat
  | none => 0
  | some c => c.size
end

theorem size_pos (n : AST) : 0 < n.size := by
  cases n <;> simp only [size] <;> omega

theorem size_le_sizes {c : AST} : ∀ {l : List AST}, c ∈ l → c.size ≤ sizes l
  | _ :: cs, .head _ => by simp only [sizes]; omega
  | _ :: cs, .tail _ h => by have := size_le_sizes h; simp only [sizes]; omega

theorem mem_fields_of_mem_children {c n : AST} (h : c ∈ n.children) : c ∈ n.fields := by
  cases n <;> simp only [children, fields, List.mem_append, List.mem_cons] at h ⊢ <;> try tauto
  case AST_Dict => exact mem_of_mem_interleave h

/-- A declared child has fewer nodes than its parent. -/
theorem size_lt_of_mem_fields {c n : AST} (h : c ∈ n.fields) : c.size < n.size := by
  have hopt : ∀ {o : Option AST}, c ∈ o.toList → c.size ≤ sizeOpt o := by
    rintro (_ | c') h <;> simp at h; subst h; simp [sizeOpt]
  revert h
  cases n <;> simp only [fields, children, List.mem_append, List.mem_cons, List.mem_singleton,
    List.not_mem_nil, or_false, false_imp_iff, or_imp, imp_self, implies_true, and_true]
  all_goals repeat' apply And.intro
  all_goals intro h; simp only [size]
  all_goals first
    | (subst h; omega)
    | (have hle := size_le_sizes h; omega)
    | (have hle := hopt h; omega)

/-- A child has fewer nodes than its parent: the measure bounding every
recursion over a tree. -/
theorem size_lt_of_mem_children {c n : AST} (h : c ∈ n.children) : c.size < n.size :=
  size_lt_of_mem_fields (mem_fields_of_mem_children h)

/-- Induction over a tree, one node at a time: a property of every node follows
from its being kept from a node's children to the node. -/
theorem children_induction {motive : AST → Prop}
    (step : ∀ n, (∀ c ∈ n.children, motive c) → motive n) (n : AST) : motive n := by
  exact (measure size).wf.induction n fun n inductionHypothesis =>
    step n fun c hc => inductionHypothesis c (size_lt_of_mem_children hc)

/-- Induction over a tree through every declared child slot. -/
theorem fields_induction {motive : AST → Prop}
    (step : ∀ n, (∀ c ∈ n.fields, motive c) → motive n) (n : AST) : motive n :=
  (measure size).wf.induction n fun n inductionHypothesis =>
    step n fun c hc => inductionHypothesis c (size_lt_of_mem_fields hc)

/-- The node at a path of indices into `children`; `[]` is the node itself. -/
def get? (n : AST) : List Nat → Option AST
  | [] => some n
  | i :: path => n.children[i]?.bind (·.get? path)

@[simp] theorem get?_nil (n : AST) : n.get? [] = some n := rfl

@[simp] theorem get?_cons (n : AST) (i : Nat) (path : List Nat) :
    n.get? (i :: path) = n.children[i]?.bind (·.get? path) := rfl

/-- `prunedPreorder` with an explicit bound on the depth; `size` is always
enough. -/
def prunedPreorderFuel (stop : AST → Bool) : Nat → AST → List AST
  | 0, _ => []
  | fuel + 1, n => n :: if stop n then [] else n.children.flatMap (prunedPreorderFuel stop fuel)

/-- The nodes of a tree, each node before its children, children in `accept`
order, leaving out whatever lies below a node where `stop` holds. -/
def prunedPreorder (stop : AST → Bool) (n : AST) : List AST := prunedPreorderFuel stop n.size n

/-- All the nodes of a tree, each node before its children. -/
def preorder (n : AST) : List AST := n.prunedPreorder fun _ => false

theorem prunedPreorderFuel_eq {stop : AST → Bool} {fuel : Nat} {n : AST} (h : n.size ≤ fuel) :
    prunedPreorderFuel stop fuel n = n.prunedPreorder stop := by
  induction n using children_induction generalizing fuel with
  | step n inductionHypothesis =>
    obtain ⟨k, hk⟩ : ∃ k, n.size = k + 1 := ⟨_, (Nat.succ_pred_eq_of_pos (size_pos n)).symm⟩
    obtain ⟨f, rfl⟩ : ∃ f, fuel = f + 1 := ⟨fuel - 1, by omega⟩
    have children_eq : ∀ g, k ≤ g → n.children.flatMap (prunedPreorderFuel stop g) =
        n.children.flatMap (prunedPreorder stop) := fun g hg =>
      List.flatMap_congr fun c hc =>
        inductionHypothesis c hc (by have := size_lt_of_mem_children hc; omega)
    simp only [prunedPreorder, hk, prunedPreorderFuel, children_eq f (by omega),
      children_eq k le_rfl]

theorem prunedPreorder_eq (stop : AST → Bool) (n : AST) :
    n.prunedPreorder stop =
      n :: if stop n then [] else n.children.flatMap (prunedPreorder stop) := by
  conv_lhs => rw [← prunedPreorderFuel_eq (Nat.le_succ n.size), prunedPreorderFuel]
  congr 2
  exact List.flatMap_congr fun c hc =>
    prunedPreorderFuel_eq (Nat.le_of_lt (size_lt_of_mem_children hc))

theorem preorder_eq (n : AST) : n.preorder = n :: n.children.flatMap preorder := by
  rw [preorder, prunedPreorder_eq]
  rfl

theorem mem_preorder_self (n : AST) : n ∈ n.preorder := by
  rw [preorder_eq]; exact List.mem_cons_self _ _

theorem preorder_subset {c n : AST} (h : c ∈ n.children) : c.preorder ⊆ n.preorder := by
  rw [preorder_eq n]
  exact fun x hx => List.mem_cons_of_mem _ (List.mem_flatMap.mpr ⟨c, h, hx⟩)

/-- The parser's contract on one node, beyond the presence of required
children: Dict and Compare vectors of equal length, a comparison tag for every
Compare operator, `And` or `Or` for a BoolOp, a unary tag for a UnaryOp, and
both successors of an Invoke. -/
def sound : AST → Bool
  | AST_Dict keys values => keys.length == values.length
  | AST_Compare _ ops comparators => ops.length == comparators.length && ops.all isCmpOp
  | AST_BoolOp op _ => op == .And || op == .Or
  | AST_UnaryOp op _ => op == .Invert || op == .Not || op == .UAdd || op == .USub
  | AST_Invoke _ normal_dest exc_dest => normal_dest.isSome && exc_dest.isSome
  | _ => true

theorem keysMatchValues_of_sound {n : AST} (h : n.sound = true) : n.keysMatchValues = true := by
  cases n <;> simp_all [sound, keysMatchValues]

/-- Every Dict node of the tree has as many values as keys. -/
def DictsPaired (t : AST) : Prop := ∀ n ∈ t.preorder, n.keysMatchValues = true

/-- Every node of the tree meets the parser's contract. -/
def WellFormed (t : AST) : Prop := ∀ n ∈ t.preorder, n.sound = true

instance : DecidablePred DictsPaired := fun t =>
  inferInstanceAs (Decidable (∀ n ∈ t.preorder, n.keysMatchValues = true))

instance : DecidablePred WellFormed := fun t =>
  inferInstanceAs (Decidable (∀ n ∈ t.preorder, n.sound = true))

theorem WellFormed.dictsPaired {t : AST} (h : t.WellFormed) : t.DictsPaired :=
  fun n hn => keysMatchValues_of_sound (h n hn)

theorem DictsPaired.self {t : AST} (h : t.DictsPaired) : t.keysMatchValues = true :=
  h t (mem_preorder_self t)

theorem DictsPaired.child {c t : AST} (h : t.DictsPaired) (hc : c ∈ t.children) :
    c.DictsPaired :=
  fun n hn => h n (preorder_subset hc hn)

theorem WellFormed.self {t : AST} (h : t.WellFormed) : t.sound = true :=
  h t (mem_preorder_self t)

theorem WellFormed.child {c t : AST} (h : t.WellFormed) (hc : c ∈ t.children) :
    c.WellFormed :=
  fun n hn => h n (preorder_subset hc hn)

theorem WellFormed.field {c t : AST} (h : t.WellFormed) (hc : c ∈ t.fields) : c.WellFormed :=
  h.child ((children_perm_fields t (keysMatchValues_of_sound h.self)).mem_iff.2 hc)

end AST

end PystonAst
