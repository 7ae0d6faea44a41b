import PystonAst.Traversal

/-!
# Flattening a tree into its nodes

`flatten` accepts each root with a `FlattenVisitor`, whose handlers append their
node to the output and answer `false`, except those of `ClassDef`, `For`,
`FunctionDef`, `GeneratorExp`, `Lambda` and `Module`, which answer
`!expand_scopes`. The output is therefore the pruned pre-order of each root in
turn (`flatten_eq_prunedPreorder`). `FlattenVisitor` declares no handler for
`Expression` and `Suite`, so for these the base class's handler of ast.h runs
(`Build.inherited`); they are `mod` nodes, which no field of a node holds, so a
statement or an expression contains none.
-/

namespace PystonAst

open AST

/-- What a `FlattenVisitor` handler answers: `!expand_scopes` for the kinds
listed, `false` for every other kind. -/
def FlattenVisitor.skip (expand_scopes : Bool) : AST → Bool
  | AST_ClassDef .. | AST_For .. | AST_FunctionDef .. | AST_GeneratorExp .. | AST_Lambda ..
  | AST_Module .. => !expand_scopes
  | _ => false

/-- The kinds `FlattenVisitor` declares no handler for. -/
def AST.isModRoot : AST → Bool
  | AST_Expression .. | AST_Suite .. => true
  | _ => false

/-- `FlattenVisitor`: every handler it declares does `output->push_back(node)`
and returns its `skip`. -/
def FlattenVisitor (build : Build) (expand_scopes : Bool) : ASTVisitor (List AST) where
  visit _ n :=
    if n.isModRoot then StateT.lift (build.inherited n)
    else modifyGet fun output => (FlattenVisitor.skip expand_scopes n, output ++ [n])

/-- `flatten(roots, output, expand_scopes)`: the output vector once every root
has been accepted. The visitor's constructor asserts `expand_scopes`. -/
def flatten (build : Build) (roots : List AST) (output : List AST) (expand_scopes : Bool) :
    Except Fault (List AST) := do
  if build.assertions && !expand_scopes then throw .assertion
  (·.2) <$> (roots.forM (·.accept (FlattenVisitor build expand_scopes))).run output

/-- The overload of `flatten` for a single expression root. -/
def flattenExpr (build : Build) (root : AST) (output : List AST) (expand_scopes : Bool) :
    Except Fault (List AST) := do
  if build.assertions && !expand_scopes then throw .assertion
  (·.2) <$> (root.accept (FlattenVisitor build expand_scopes)).run output

/-- A tree with no `Expression` or `Suite` node: any statement or expression. -/
def AST.NoModRoots (t : AST) : Prop := ∀ n ∈ t.preorder, n.isModRoot = false

instance : DecidablePred AST.NoModRoots := fun t =>
  inferInstanceAs (Decidable (∀ n ∈ t.preorder, n.isModRoot = false))

/-- The handlers `FlattenVisitor` declares, as a function of the node and the
output. -/
def flattenHandler (expand_scopes : Bool) (n : AST) (output : List AST) : List AST × Bool :=
  (output ++ [n], FlattenVisitor.skip expand_scopes n)

@[simp] theorem FlattenVisitor.skip_true (n : AST) : FlattenVisitor.skip true n = false := by
  cases n <;> rfl

theorem FlattenVisitor_local (build : Build) (expand_scopes : Bool) :
    (FlattenVisitor build expand_scopes).Local :=
  fun _ _ _ _ => rfl

/-- On a tree without `mod` nodes, `FlattenVisitor` runs its own handlers only. -/
theorem accept_FlattenVisitor (build : Build) (expand_scopes : Bool) {t : AST}
    (ht : t.DictsPaired) (hmod : t.NoModRoots) :
    t.accept (FlattenVisitor build expand_scopes) =
      t.accept (.ofHandler (flattenHandler expand_scopes)) :=
  accept_congr (FlattenVisitor_local build expand_scopes) (ASTVisitor.ofHandler_local _) ht
    fun n hn _ => by simp [FlattenVisitor, ASTVisitor.ofHandler, flattenHandler, hmod n hn]

theorem traceChildren_flattenHandler {expand_scopes : Bool} {cs : List AST}
    (h : ∀ c ∈ cs, ∀ output, (trace (flattenHandler expand_scopes) c output).2 =
      output ++ c.prunedPreorder (FlattenVisitor.skip expand_scopes))
    (output : List AST) :
    (traceChildren (trace (flattenHandler expand_scopes)) cs output).2 =
      output ++ cs.flatMap (prunedPreorder (FlattenVisitor.skip expand_scopes)) := by
  induction cs generalizing output with
  | nil => simp [traceChildren]
  | cons c cs inductionHypothesis =>
    simp only [traceChildren, h c (List.mem_cons_self _ _), List.flatMap_cons,
      inductionHypothesis fun c' hc' => h c' (List.mem_cons_of_mem _ hc'), List.append_assoc]

/-- The handlers append the nodes of the pruned pre-order to the output. -/
theorem trace_flattenHandler (expand_scopes : Bool) (t : AST) (output : List AST) :
    (trace (flattenHandler expand_scopes) t output).2 =
      output ++ t.prunedPreorder (FlattenVisitor.skip expand_scopes) := by
  induction t using children_induction generalizing output with
  | step n inductionHypothesis =>
    rw [trace_eq, prunedPreorder_eq]
    cases h : FlattenVisitor.skip expand_scopes n
    · simp [flattenHandler, h, traceChildren_flattenHandler fun c hc => inductionHypothesis c hc]
    · simp [flattenHandler, h]

theorem forM_accept_FlattenVisitor (build : Build) (expand_scopes : Bool) {roots : List AST}
    (hroots : ∀ r ∈ roots, r.DictsPaired ∧ r.NoModRoots) (output : List AST) :
    (roots.forM (·.accept (FlattenVisitor build expand_scopes))).run output =
      .ok ((), output ++ roots.flatMap (prunedPreorder (FlattenVisitor.skip expand_scopes))) := by
  induction roots generalizing output with
  | nil => simp; rfl
  | cons r roots inductionHypothesis =>
    obtain ⟨hr, hmod⟩ := hroots r (List.mem_cons_self _ _)
    simp only [List.forM, StateT.run_bind, accept_FlattenVisitor build expand_scopes hr hmod,
      accept_ofHandler hr, trace_flattenHandler, List.flatMap_cons, ← List.append_assoc]
    exact inductionHypothesis (fun r' hr' => hroots r' (List.mem_cons_of_mem _ hr')) _

/-- Where the constructor's assert is compiled out or holds, `flatten` is the
run of its loop over the roots. -/
theorem flatten_eq_run (build : Build) {expand_scopes : Bool}
    (hbuild : build.assertions = false ∨ expand_scopes = true) (roots output : List AST) :
    flatten build roots output expand_scopes =
      (·.2) <$> (roots.forM (·.accept (FlattenVisitor build expand_scopes))).run output := by
  have hassert : (build.assertions && !expand_scopes) = false := by
    rcases hbuild with h | h <;> simp [h]
  simp [flatten, hassert]

/-- Where the constructor's assert is compiled out or holds, `flatten` appends
the pruned pre-order of each root in turn, stopping below the nodes whose
handler answers `!expand_scopes`. -/
theorem flatten_eq_prunedPreorder (build : Build) {expand_scopes : Bool}
    (hbuild : build.assertions = false ∨ expand_scopes = true) {roots : List AST}
    (hroots : ∀ r ∈ roots, r.DictsPaired ∧ r.NoModRoots) (output : List AST) :
    flatten build roots output expand_scopes =
      .ok (output ++ roots.flatMap (prunedPreorder (FlattenVisitor.skip expand_scopes))) := by
  rw [flatten_eq_run build hbuild, forM_accept_FlattenVisitor build expand_scopes hroots]
  rfl

theorem flatten_eq_prunedPreorder_release :
    ((⟨false, fun _ => 0, fun _ => .ok false, fun _ => "", 0⟩ : Build).assertions = false ∨
        false = true) ∧
      (∀ r ∈ [AST_Pass, AST_Expr (AST_Lambda (AST_arguments [] none none []) (AST_Name "x"))],
        r.DictsPaired ∧ r.NoModRoots) ∧
      flatten ⟨false, fun _ => 0, fun _ => .ok false, fun _ => "", 0⟩
          [AST_Pass, AST_Expr (AST_Lambda (AST_arguments [] none none []) (AST_Name "x"))] []
          false =
        .ok ([] ++ [AST_Pass,
            AST_Expr (AST_Lambda (AST_arguments [] none none []) (AST_Name "x"))].flatMap
          (prunedPreorder (FlattenVisitor.skip false))) :=
  ⟨.inl rfl, by decide, flatten_eq_prunedPreorder _ (.inl rfl) (by decide) []⟩

theorem flattenExpr_eq_flatten (build : Build) (root : AST) (output : List AST)
    (expand_scopes : Bool) :
    flattenExpr build root output expand_scopes = flatten build [root] output expand_scopes := by
  simp [flatten, flattenExpr, List.forM]

/-- What `flatten` does with a list of roots, given the block `blocks` of each. -/
structure AppendsRootBlocks (build : Build) (roots output : List AST) (expand_scopes : Bool)
    (blocks : List (List AST)) : Prop where
  /-- Each block is what `flatten` gives for its root alone, from an empty output. -/
  block : List.Forall₂ (fun r block => flatten build [r] [] expand_scopes = .ok block) roots blocks
  /-- `flatten` appends the blocks to the output, in root order. -/
  appends : flatten build roots output expand_scopes = .ok (output ++ blocks.flatten)
  /-- Flattening a concatenation of root lists concatenates the results. -/
  split : ∀ r1 r2, roots = r1 ++ r2 →
    flatten build roots [] expand_scopes = do
      let a ← flatten build r1 [] expand_scopes
      let b ← flatten build r2 [] expand_scopes
      pure (a ++ b)
  /-- The overload for one expression agrees with a list of one root. -/
  expr : ∀ r, flattenExpr build r output expand_scopes = flatten build [r] output expand_scopes
  /-- With `expand_scopes`, a block is the whole pre-order of its root. -/
  expanded : expand_scopes = true → blocks = roots.map preorder

/-- Where the constructor's assert is compiled out or holds, `flatten` is the
concatenation of the blocks of its roots. -/
theorem flatten_appends_root_blocks (build : Build) {expand_scopes : Bool}
    (hbuild : build.assertions = false ∨ expand_scopes = true) {roots : List AST}
    (hroots : ∀ r ∈ roots, r.DictsPaired ∧ r.NoModRoots) (output : List AST) :
    ∃ blocks, AppendsRootBlocks build roots output expand_scopes blocks := by
  have flat : ∀ {rs : List AST}, rs ⊆ roots → ∀ out, flatten build rs out expand_scopes =
      .ok (out ++ rs.flatMap (prunedPreorder (FlattenVisitor.skip expand_scopes))) :=
    fun hrs out => by
      rw [flatten_eq_run build hbuild,
        forM_accept_FlattenVisitor build expand_scopes fun r hr => hroots r (hrs hr)]
      rfl
  refine ⟨roots.map (prunedPreorder (FlattenVisitor.skip expand_scopes)),
    { block := ?_, appends := ?_, split := ?_, expr := fun r => flattenExpr_eq_flatten .., expanded := ?_ }⟩
  · refine List.forall₂_map_right_iff.2 (List.forall₂_same.2 fun r hr => ?_)
    simpa using flat (List.cons_subset.2 ⟨hr, List.nil_subset _⟩) []
  · simpa [List.flatMap_def] using flat (List.Subset.refl _) output
  · rintro r1 r2 rfl
    rw [flat (List.Subset.refl _), flat (List.subset_append_left r1 r2),
      flat (List.subset_append_right r1 r2)]
    simp only [List.nil_append, List.flatMap_append]
    rfl
  · rintro rfl
    congr 1
    funext r
    simp only [preorder, funext FlattenVisitor.skip_true]

theorem flatten_appends_root_blocks_release :
    ((⟨false, fun _ => 0, fun _ => .ok false, fun _ => "", 0⟩ : Build).assertions = false ∨
        false = true) ∧
      (∀ r ∈ [AST_Pass, AST_Expr (AST_Name "x")], r.DictsPaired ∧ r.NoModRoots) ∧
      ∃ blocks, AppendsRootBlocks ⟨false, fun _ => 0, fun _ => .ok false, fun _ => "", 0⟩
        [AST_Pass, AST_Expr (AST_Name "x")] [AST_Break] false blocks :=
  ⟨.inl rfl, by decide, flatten_appends_root_blocks _ (.inl rfl) (by decide) _⟩

/-- With assertions compiled in, `flatten` aborts on `expand_scopes = false`
before it visits anything. -/
theorem flatten_asserts_expand_scopes :
    flatten ⟨true, fun _ => 0, fun _ => .ok false, fun _ => "", 0⟩ [AST_Pass] [] false =
      .error .assertion :=
  rfl

/-- Without `expand_scopes`, `flatten` stops at a `For` loop but descends into
a set comprehension. -/
theorem flatten_prunes_for_not_setcomp :
    flatten ⟨false, fun _ => 0, fun _ => .ok false, fun _ => "", 0⟩
        [AST_For (AST_Name "i") (AST_Name "xs") [AST_Pass] []] [] false =
      .ok [AST_For (AST_Name "i") (AST_Name "xs") [AST_Pass] []] ∧
    flatten ⟨false, fun _ => 0, fun _ => .ok false, fun _ => "", 0⟩
        [AST_Expr (AST_SetComp (AST_Name "x") [AST_comprehension (AST_Name "x") (AST_Name "xs") []])]
        [] false =
      .ok [AST_Expr (AST_SetComp (AST_Name "x")
          [AST_comprehension (AST_Name "x") (AST_Name "xs") []]),
        AST_SetComp (AST_Name "x") [AST_comprehension (AST_Name "x") (AST_Name "xs") []],
        AST_comprehension (AST_Name "x") (AST_Name "xs") [], AST_Name "x", AST_Name "xs",
        AST_Name "x"] :=
  ⟨rfl, rfl⟩

end PystonAst
