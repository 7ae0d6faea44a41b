import PystonAst.Tree

/-!
# Scope nodes

`AST::getBody`, `getDocString` and `AST::getName`, which the code generator
calls on the nodes that open a scope. The boxed strings they return are their
texts; `getDocString` answers `None` as `none`. Every node `getBody` accepts,
`getName` names, and the body it returns is what `accept` visits last
(`getBody_scope`).
-/

namespace PystonAst

open AST

/-- `AST::getBody`; `RELEASE_ASSERT` on a node that holds no body. An
`Expression`'s body is its one statement. -/
def AST.getBody : AST → Except Fault (List AST)
  | AST_ClassDef _ _ body _ => .ok body
  | AST_Expression body => .ok [body]
  | AST_FunctionDef _ _ body _ => .ok body
  | AST_Module body => .ok body
  | _ => .error .assertion

/-- `getDocString`: the string of a first statement that is an expression
statement holding a string. -/
def getDocString : List AST → Option String
  | AST_Expr (AST_Str _ str_data) :: _ => some str_data
  | _ => none

/-- `AST::getName`; a function with no name is a lambda, and the nodes of a
whole module are named `<module>`. -/
def AST.getName : AST → Except Fault String
  | AST_ClassDef name .. => .ok name
  | AST_FunctionDef name .. => .ok (name.getD "<lambda>")
  | AST_Module _ | AST_Expression _ | AST_Suite _ => .ok "<module>"
  | _ => .error .assertion

/-- A node with a body has a name, and `accept` visits its body after every
other child. -/
theorem getBody_scope {n : AST} {body : List AST} (h : n.getBody = .ok body) :
    body.IsSuffix n.children ∧ ∃ name, n.getName = .ok name := by
  cases n <;> try exact Except.noConfusion h
  all_goals cases h
  case AST_ClassDef => exact ⟨List.suffix_append _ _, _, rfl⟩
  case AST_FunctionDef _ args decorator_list =>
    exact ⟨⟨decorator_list ++ [args], by simp [children]⟩, _, rfl⟩
  all_goals exact ⟨List.suffix_refl _, _, rfl⟩

end PystonAst
