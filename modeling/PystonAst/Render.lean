import PystonAst.Print
import Mathlib.Data.Int.Order.Basic

/-!
# Rendering as a function of the indent

Two facts about the handlers carry everything the printer does: each handler
gives back the indent it started from and never goes below it
(`handler_shifts`), and it accepts nothing but children of its node
(`handler_accepts`). With them, `accept` with `ASTPrintVisitor` from indent `d`
appends `render build d n` to the stream and leaves the indent at `d`
(`accept_print`), where `render` composes the texts of the children, each
rendered from the indent it is accepted at.
-/

namespace PystonAst

open AST

/-- The change of `indent` one statement makes. -/
def PrintStep.shift : PrintStep → Int
  | .shiftIndent delta => delta
  | _ => 0

@[simp] theorem PrintStep.shift_write (text : String) : (write text).shift = 0 := rfl
@[simp] theorem PrintStep.shift_printIndent : printIndent.shift = 0 := rfl
@[simp] theorem PrintStep.shift_shiftIndent (delta : Int) : (shiftIndent delta).shift = delta := rfl
@[simp] theorem PrintStep.shift_accept (child : AST) : (accept child).shift = 0 := rfl
@[simp] theorem PrintStep.shift_fault (f : Fault) : (fault f).shift = 0 := rfl

/-- The change of `indent` a list of statements makes. -/
def netShift : List PrintStep → Int
  | [] => 0
  | step :: steps => step.shift + netShift steps

/-- The least change of `indent` after any prefix of `steps`. -/
def lowPoint : List PrintStep → Int
  | [] => 0
  | step :: steps => min 0 (step.shift + lowPoint steps)

@[simp] theorem netShift_nil : netShift [] = 0 := rfl

@[simp] theorem netShift_cons (step : PrintStep) (steps : List PrintStep) :
    netShift (step :: steps) = step.shift + netShift steps := rfl

@[simp] theorem netShift_append (a b : List PrintStep) :
    netShift (a ++ b) = netShift a + netShift b := by
  induction a with
  | nil => simp
  | cons step a inductionHypothesis => simp only [List.cons_append, netShift_cons, inductionHypothesis]; omega

@[simp] theorem lowPoint_nil : lowPoint [] = 0 := rfl

@[simp] theorem lowPoint_cons (step : PrintStep) (steps : List PrintStep) :
    lowPoint (step :: steps) = min 0 (step.shift + lowPoint steps) := rfl

theorem lowPoint_nonpos (steps : List PrintStep) : lowPoint steps ≤ 0 := by
  cases steps <;> simp only [lowPoint_nil, lowPoint_cons] <;> omega

@[simp] theorem lowPoint_append (a b : List PrintStep) :
    lowPoint (a ++ b) = min (lowPoint a) (netShift a + lowPoint b) := by
  induction a with
  | nil => have := lowPoint_nonpos b; simp only [List.nil_append, lowPoint_nil, netShift_nil]; omega
  | cons step a inductionHypothesis =>
    simp only [List.cons_append, lowPoint_cons, inductionHypothesis, netShift_cons]
    omega

section

variable {α : Type} {f : α → List PrintStep}

theorem netShift_flatMap (h : ∀ x, netShift (f x) = 0) (l : List α) :
    netShift (l.flatMap f) = 0 := by
  induction l <;> simp_all

theorem lowPoint_flatMap (h : ∀ x, netShift (f x) = 0 ∧ lowPoint (f x) = 0) (l : List α) :
    lowPoint (l.flatMap f) = 0 := by
  induction l with
  | nil => rfl
  | cons x l inductionHypothesis => simp [(h x).1, (h x).2, inductionHypothesis]

@[simp] theorem netShift_map_accept (l : List AST) : netShift (l.map .accept) = 0 := by
  induction l <;> simp_all

@[simp] theorem lowPoint_map_accept (l : List AST) : lowPoint (l.map .accept) = 0 := by
  induction l <;> simp_all

theorem netShift_separatedBy {sep : List PrintStep} (hsep : netShift sep = 0)
    (h : ∀ x, netShift (f x) = 0) (l : List α) : netShift (separatedBy sep f l) = 0 := by
  cases l <;> simp [separatedBy, h, netShift_flatMap, hsep]

theorem lowPoint_separatedBy {sep : List PrintStep} (hsep : netShift sep = 0 ∧ lowPoint sep = 0)
    (h : ∀ x, netShift (f x) = 0 ∧ lowPoint (f x) = 0) (l : List α) :
    lowPoint (separatedBy sep f l) = 0 := by
  cases l with
  | nil => rfl
  | cons x l =>
    simp [separatedBy, (h x).1, (h x).2, netShift_flatMap, lowPoint_flatMap, hsep, h]

end

@[simp] theorem acceptAt_shift (v : List AST) (j : Int) : (acceptAt v j).shift = 0 := by
  unfold acceptAt
  split
  · split <;> rfl
  · rfl

@[simp] theorem boolOpSeparator_shifts (build : Build) (op : AST_TYPE) :
    netShift (boolOpSeparator build op) = 0 ∧ lowPoint (boolOpSeparator build op) = 0 := by
  unfold boolOpSeparator
  split
  · simp
  · simp
  · split <;> simp

@[simp] theorem unaryOpSymbol_shifts (build : Build) (op : AST_TYPE) :
    netShift (unaryOpSymbol build op) = 0 ∧ lowPoint (unaryOpSymbol build op) = 0 := by
  unfold unaryOpSymbol
  split <;> try split
  all_goals simp

@[simp] theorem argumentSteps_shifts (args defaults : List AST) (x : Nat × AST) :
    netShift (argumentSteps args defaults x) = 0 ∧ lowPoint (argumentSteps args defaults x) = 0 := by
  obtain ⟨i, arg⟩ := x
  simp only [argumentSteps]
  split <;> simp

@[simp] theorem compareSteps_shifts (comparators : List AST) (x : Nat × AST_TYPE) :
    netShift (compareSteps comparators x) = 0 ∧ lowPoint (compareSteps comparators x) = 0 := by
  unfold compareSteps
  split; split <;> simp

/-- Every handler gives back the indent it started from and never goes below
it: each `indent += 4` is undone by an `indent -= 4` on every path. -/
theorem handler_shifts (build : Build) (n : AST) :
    netShift (ASTPrintVisitor.handler build n).1 = 0 ∧
      lowPoint (ASTPrintVisitor.handler build n).1 = 0 := by
  cases n <;> simp only [ASTPrintVisitor.handler]
  all_goals repeat' split
  all_goals simp only [lines, netShift_nil, netShift_cons, netShift_append, lowPoint_nil,
    lowPoint_cons, lowPoint_append, PrintStep.shift_write, PrintStep.shift_accept,
    PrintStep.shift_printIndent, PrintStep.shift_shiftIndent, PrintStep.shift_fault, acceptAt_shift,
    netShift_map_accept, lowPoint_map_accept, netShift_flatMap, lowPoint_flatMap,
    netShift_separatedBy, lowPoint_separatedBy, boolOpSeparator_shifts, unaryOpSymbol_shifts,
    argumentSteps_shifts, compareSteps_shifts, List.cons_append, List.singleton_append,
    List.append_assoc, List.append_nil, List.nil_append, Int.add_zero, Int.zero_add, min_self,
    implies_true, and_self]
  all_goals omega

theorem mem_separatedBy {α : Type} {sep : List PrintStep} {item : α → List PrintStep}
    {step : PrintStep} (hsep : step ∉ sep) (xs : List α) :
    step ∈ separatedBy sep item xs ↔ ∃ x ∈ xs, step ∈ item x := by
  cases xs <;> simp [separatedBy, hsep]

theorem accept_eq_acceptAt {c : AST} {v : List AST} {j : Int} :
    PrintStep.accept c = acceptAt v j ↔ 0 ≤ j ∧ v[j.toNat]? = some c := by
  unfold acceptAt
  split
  · next hj =>
    split
    · next hchild => simp [hchild, hj, eq_comm]
    · next hnone => simp [hnone]
  · next hj => simp [hj]

theorem mem_of_accept_eq_acceptAt {c : AST} {v : List AST} {j : Int}
    (h : PrintStep.accept c = acceptAt v j) : c ∈ v :=
  List.getElem?_mem (accept_eq_acceptAt.1 h).2

theorem accept_not_mem_boolOpSeparator (build : Build) (op : AST_TYPE) (c : AST) :
    PrintStep.accept c ∉ boolOpSeparator build op := by
  unfold boolOpSeparator
  split <;> try split
  all_goals simp

theorem accept_not_mem_unaryOpSymbol (build : Build) (op : AST_TYPE) (c : AST) :
    PrintStep.accept c ∉ unaryOpSymbol build op := by
  unfold unaryOpSymbol
  split <;> try split
  all_goals simp

theorem accept_mem_argumentSteps {args defaults : List AST} {x : Nat × AST} {c : AST}
    (h : PrintStep.accept c ∈ argumentSteps args defaults x) : c = x.2 ∨ c ∈ defaults := by
  unfold argumentSteps at h
  split at h
  split at h <;> simp only [List.mem_cons, PrintStep.accept.injEq, reduceCtorEq, false_or,
    List.not_mem_nil, or_false] at h
  · exact h.imp_right mem_of_accept_eq_acceptAt
  · exact .inl h

theorem accept_mem_compareSteps {comparators : List AST} {x : Nat × AST_TYPE} {c : AST}
    (h : PrintStep.accept c ∈ compareSteps comparators x) : c ∈ comparators := by
  unfold compareSteps at h
  split at h
  split at h <;> simp only [List.mem_cons, reduceCtorEq, false_or, List.not_mem_nil,
    or_false] at h
  exact mem_of_accept_eq_acceptAt h

/-- A handler accepts nothing but children of its node. -/
theorem handler_accepts {build : Build} {n c : AST}
    (h : PrintStep.accept c ∈ (ASTPrintVisitor.handler build n).1) : c ∈ n.fields := by
  cases n <;> simp only [ASTPrintVisitor.handler] at h <;> (repeat' split at h) <;>
    simp [lines, mem_separatedBy, accept_not_mem_boolOpSeparator,
      accept_not_mem_unaryOpSymbol] at h
  case AST_arguments =>
    obtain ⟨i, arg, hi, hc⟩ := h
    rcases accept_mem_argumentSteps hc with rfl | hd
    · simp [fields, List.snd_mem_of_mem_enum hi]
    · simp [fields, hd]
  case AST_Compare =>
    rcases h with rfl | ⟨i, op, -, hc⟩
    · simp [fields, children]
    · simp [fields, children, accept_mem_compareSteps hc]
  case AST_Dict =>
    obtain ⟨i, key, hi, rfl | hv⟩ := h
    · simp [fields, List.snd_mem_of_mem_enum hi]
    · simp [fields, mem_of_accept_eq_acceptAt hv]
  case AST_Exec =>
    rcases h with rfl | ⟨g, rfl, rfl | hl⟩ <;> simp [fields, children, *]
  case AST_TryFinally.isTrue =>
    simpa [fields, children] using h.imp_left mem_of_accept_eq_acceptAt
  all_goals simp [fields, children] at h ⊢; try tauto

/-- Handlers that answer `false` leave their children to `accept`; none of
them is a Dict. -/
theorem keysMatchValues_of_not_skip {build : Build} {n : AST}
    (h : (ASTPrintVisitor.handler build n).2 = false) : n.keysMatchValues = true := by
  cases n <;> simp_all [ASTPrintVisitor.handler, keysMatchValues]

/-- The text `steps` write from indent `d`, given the text `child e c` each
accepted child writes from the indent `e` it is accepted at. -/
def stepsText (child : Int → AST → Except Fault String) : Int → List PrintStep →
    Except Fault String
  | _, [] => pure ""
  | d, .write text :: steps => (text ++ ·) <$> stepsText child d steps
  | d, .printIndent :: steps => (spaces d ++ ·) <$> stepsText child d steps
  | d, .shiftIndent delta :: steps => stepsText child (d + delta) steps
  | d, .accept c :: steps => do
    let text ← child d c
    (text ++ ·) <$> stepsText child d steps
  | _, .fault f :: _ => throw f

theorem foldl_append_eq (a : String) :
    ∀ l : List String, l.foldl (· ++ ·) a = a ++ l.foldl (· ++ ·) ""
  | [] => by simp
  | t :: ts => by
    simp only [List.foldl_cons, String.empty_append]
    rw [foldl_append_eq (a ++ t) ts, foldl_append_eq t ts, String.append_assoc]

@[simp] theorem join_nil : String.join [] = "" := rfl

@[simp] theorem join_cons (t : String) (ts : List String) :
    String.join (t :: ts) = t ++ String.join ts :=
  foldl_append_eq "" (t :: ts) |>.trans (by simp [String.join, foldl_append_eq t ts])

/-- `render` with an explicit bound on the depth. -/
def renderFuel (build : Build) : Nat → Int → AST → Except Fault String
  | 0, _, _ => throw .outOfFuel
  | fuel + 1, d, n => do
    let text ← stepsText (renderFuel build fuel) d (ASTPrintVisitor.handler build n).1
    if (ASTPrintVisitor.handler build n).2 then pure text
    else
      let texts ← n.children.mapM
        (renderFuel build fuel (d + netShift (ASTPrintVisitor.handler build n).1))
      pure (text ++ String.join texts)

/-- The text `ASTPrintVisitor` writes for `n` from indent `d`: its handler's
statements, each child rendered from the indent it is accepted at, then the
children `accept` visits when the handler does not skip. -/
def render (build : Build) (d : Int) (n : AST) : Except Fault String :=
  renderFuel build n.size d n

end PystonAst
