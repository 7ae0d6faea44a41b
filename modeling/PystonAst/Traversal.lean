import PystonAst.Accept
import Mathlib.Data.List.Lex
import Mathlib.Data.List.Nodup

/-!
# Pre-order traversal with pruning

For a visitor whose handlers do not call `accept`, `trace` lists the handler
calls `accept` makes, each with the path of its node: the node's own handler
first, then, unless it answered `skip`, the calls of each child in `children`
order. `accept_ofHandler` and `trace_record` connect `trace` to `AST.accept`;
the rest of the module derives the shape of the call sequence from `trace`:
every call is on a node of the tree, paths come in lexicographic (pre-)order,
and a node is reached exactly when no proper ancestor skipped.
-/

namespace PystonAst

open AST

/-- One handler call: the path of the node in the tree, the node, and the
`skip` its handler answered. -/
structure Call where
  path : List Nat
  node : AST
  skip : Bool

/-- The same call seen from the parent, below the child at index `i`. -/
def Call.under (i : Nat) (c : Call) : Call := { c with path := i :: c.path }

@[simp] theorem Call.under_path (i : Nat) (c : Call) : (c.under i).path = i :: c.path := rfl
@[simp] theorem Call.under_node (i : Nat) (c : Call) : (c.under i).node = c.node := rfl
@[simp] theorem Call.under_skip (i : Nat) (c : Call) : (c.under i).skip = c.skip := rfl

/-- Concatenate blocks of calls, the `j`-th below the index `i + j`. -/
def indexBlocks : Nat → List (List Call) → List Call
  | _, [] => []
  | i, block :: blocks => block.map (Call.under i) ++ indexBlocks (i + 1) blocks

theorem mem_indexBlocks {c : Call} : ∀ {i : Nat} {blocks : List (List Call)},
    c ∈ indexBlocks i blocks ↔
      ∃ (j : Nat) (block : List Call) (d : Call),
        blocks[j]? = some block ∧ d ∈ block ∧ c = d.under (i + j)
  | _, [] => by simp [indexBlocks]
  | i, block :: blocks => by
    simp only [indexBlocks, List.mem_append, List.mem_map, mem_indexBlocks]
    constructor
    · rintro (⟨d, hd, rfl⟩ | ⟨j, b, d, hb, hd, rfl⟩)
      · exact ⟨0, block, d, List.getElem?_cons_zero, hd, rfl⟩
      · refine ⟨j + 1, b, d, ?_, hd, by rw [Nat.add_right_comm, Nat.add_assoc]⟩
        rwa [List.getElem?_cons_succ]
    · rintro ⟨_ | j, b, d, hb, hd, rfl⟩
      · rw [List.getElem?_cons_zero, Option.some_inj] at hb
        exact .inl ⟨d, hb ▸ hd, rfl⟩
      · rw [List.getElem?_cons_succ] at hb
        exact .inr ⟨j, b, d, hb, hd, by rw [Nat.add_right_comm, Nat.add_assoc]⟩

/-- A path below `i + j` is reached in `indexBlocks i blocks` exactly when it is
reached in block `j`. -/
theorem exists_indexBlocks_path {i j : Nat} {q : List Nat} {blocks : List (List Call)}
    {P : Bool → Prop} :
    (∃ c ∈ indexBlocks i blocks, c.path = (i + j) :: q ∧ P c.skip) ↔
      ∃ block, blocks[j]? = some block ∧ ∃ d ∈ block, d.path = q ∧ P d.skip := by
  constructor
  · rintro ⟨c, hc, hpath, hP⟩
    obtain ⟨j', block, d, hblock, hd, rfl⟩ := mem_indexBlocks.1 hc
    obtain ⟨hj, rfl⟩ : i + j' = i + j ∧ d.path = q := by simpa using hpath
    exact ⟨block, (Nat.add_left_cancel hj) ▸ hblock, d, hd, rfl, hP⟩
  · rintro ⟨block, hblock, d, hd, rfl, hP⟩
    exact ⟨d.under (i + j), mem_indexBlocks.2 ⟨j, block, d, hblock, hd, rfl⟩, rfl, hP⟩

theorem indexBlocks_sorted : ∀ {i : Nat} {blocks : List (List Call)},
    (∀ block ∈ blocks, (block.map Call.path).Pairwise (List.Lex (· < ·))) →
      ((indexBlocks i blocks).map Call.path).Pairwise (List.Lex (· < ·))
  | _, [], _ => .nil
  | i, block :: blocks, h => by
    simp only [indexBlocks, List.map_append, List.pairwise_append, List.map_map]
    refine ⟨?_, indexBlocks_sorted fun b hb => h b (List.mem_cons_of_mem _ hb), ?_⟩
    · have sorted := h block (List.mem_cons_self _ _)
      rw [List.pairwise_map] at sorted ⊢
      exact sorted.imp List.Lex.cons
    · intro p hp q hq
      obtain ⟨d, -, rfl⟩ := List.mem_map.1 hp
      obtain ⟨c, hc, rfl⟩ := List.mem_map.1 hq
      obtain ⟨j, -, e, -, -, rfl⟩ := mem_indexBlocks.1 hc
      exact List.Lex.rel (by omega)

/-- What a call says apart from its path is the same in the indexed blocks. -/
theorem indexBlocks_map {β : Type} {f : Call → β} (hf : ∀ i c, f (c.under i) = f c) :
    ∀ (i : Nat) (blocks : List (List Call)),
      (indexBlocks i blocks).map f = (blocks.map (·.map f)).flatten
  | _, [] => rfl
  | i, block :: blocks => by
    simp [indexBlocks, Function.comp_def, hf, indexBlocks_map hf (i + 1) blocks]

/-- A path never comes lexicographically before one of its prefixes. -/
theorem not_lex_of_prefix : ∀ {p q : List Nat}, p <+: q → ¬ List.Lex (· < ·) q p
  | [], _, _, h => List.Lex.not_nil_right _ _ h
  | x :: p, _, ⟨r, rfl⟩, h => by
    cases h with
    | cons h => exact not_lex_of_prefix ⟨r, rfl⟩ h
    | rel h => exact Nat.lt_irrefl x h

/-- The paths that extend `p` are an interval of the lexicographic order. -/
theorem prefix_of_lex_between {p a b c : List Nat} (hab : List.Lex (· < ·) a b)
    (hbc : List.Lex (· < ·) b c) (ha : p <+: a) (hc : p <+: c) : p <+: b := by
  induction p generalizing a b c with
  | nil => exact List.nil_prefix
  | cons x p inductionHypothesis =>
    obtain ⟨ra, rfl⟩ := ha
    obtain ⟨rc, rfl⟩ := hc
    cases hab with
    | cons hab =>
      cases hbc with
      | cons hbc =>
        exact List.cons_prefix_cons.2 ⟨rfl, inductionHypothesis hab hbc ⟨ra, rfl⟩ ⟨rc, rfl⟩⟩
      | rel hbc => exact absurd hbc (Nat.lt_irrefl x)
    | rel hab =>
      cases hbc with
      | cons => exact absurd hab (Nat.lt_irrefl x)
      | rel hbc => exact absurd (hab.trans hbc) (Nat.lt_irrefl x)

section

variable {σ : Type} (handler : AST → σ → σ × Bool)

/-- Trace each child in turn, threading the state. -/
def traceChildren (trace : AST → σ → List Call × σ) : List AST → σ → List (List Call) × σ
  | [], s => ([], s)
  | c :: cs, s =>
    let rest := traceChildren trace cs (trace c s).2
    ((trace c s).1 :: rest.1, rest.2)

/-- `trace` with an explicit bound on the depth. -/
def traceFuel : Nat → AST → σ → List Call × σ
  | 0, _, s => ([], s)
  | fuel + 1, n, s =>
    if (handler n s).2 then ([⟨[], n, true⟩], (handler n s).1)
    else
      let blocks := traceChildren (traceFuel fuel) n.children (handler n s).1
      (⟨[], n, false⟩ :: indexBlocks 0 blocks.1, blocks.2)

/-- The handler calls of a pre-order traversal that prunes where `handler`
answers `skip`, and the final state. -/
def trace (n : AST) (s : σ) : List Call × σ := traceFuel handler n.size n s

/-- The same handler, also appending each node it is called on, with its
answer, to a log. -/
def record (n : AST) : σ × List (AST × Bool) → (σ × List (AST × Bool)) × Bool
  | (s, log) => (((handler n s).1, log ++ [(n, (handler n s).2)]), (handler n s).2)

variable {handler}

theorem traceChildren_congr {tr tr' : AST → σ → List Call × σ} :
    ∀ {cs : List AST}, (∀ c ∈ cs, ∀ s, tr c s = tr' c s) →
      ∀ s, traceChildren tr cs s = traceChildren tr' cs s
  | [], _, _ => rfl
  | c :: _, h, s => by
    simp only [traceChildren, h c (List.mem_cons_self _ _),
      traceChildren_congr (fun c' hc' => h c' (List.mem_cons_of_mem _ hc'))]

/-- Block `k` is the trace of child `k`, from the state the blocks before it
leave. -/
theorem traceChildren_getElem? (tr : AST → σ → List Call × σ) :
    ∀ (cs : List AST) (s : σ) (k : Nat),
      (traceChildren tr cs s).1[k]? = cs[k]?.map fun c => (tr c (traceChildren tr (cs.take k) s).2).1
  | [], _, _ => rfl
  | _ :: _, _, 0 => by simp [traceChildren]
  | c :: cs, s, k + 1 => by simpa [traceChildren] using traceChildren_getElem? tr cs (tr c s).2 k

theorem mem_traceChildren {tr : AST → σ → List Call × σ} {cs : List AST} {s : σ}
    {block : List Call} (h : block ∈ (traceChildren tr cs s).1) :
    ∃ c ∈ cs, ∃ s', block = (tr c s').1 := by
  obtain ⟨k, hk⟩ := List.mem_iff_getElem?.1 h
  rw [traceChildren_getElem?] at hk
  obtain ⟨c, hc, rfl⟩ := Option.map_eq_some'.1 hk
  exact ⟨c, List.getElem?_mem hc, _, rfl⟩

theorem traceFuel_eq_trace {fuel : Nat} {n : AST} (h : n.size ≤ fuel) (s : σ) :
    traceFuel handler fuel n s = trace handler n s := by
  induction n using children_induction generalizing fuel s with
  | step n inductionHypothesis =>
    obtain ⟨k, hk⟩ := exists_size_eq_succ n
    obtain ⟨f, rfl⟩ : ∃ f, fuel = f + 1 := ⟨fuel - 1, by omega⟩
    have agree : ∀ g, k ≤ g → ∀ c ∈ n.children, ∀ s, traceFuel handler g c s = trace handler c s :=
      fun g hg c hc s => inductionHypothesis c hc (by have := size_lt_of_mem_children hc; omega) s
    rw [trace, hk]
    simp only [traceFuel, traceChildren_congr (agree f (by omega)),
      traceChildren_congr (agree k le_rfl)]

/-- One step of `trace`: the node's handler, then its children unless it
skipped. -/
theorem trace_eq (n : AST) (s : σ) :
    trace handler n s =
      if (handler n s).2 then ([⟨[], n, true⟩], (handler n s).1)
      else (⟨[], n, false⟩ ::
          indexBlocks 0 (traceChildren (trace handler) n.children (handler n s).1).1,
        (traceChildren (trace handler) n.children (handler n s).1).2) := by
  obtain ⟨k, hk⟩ := exists_size_eq_succ n
  rw [trace, hk, traceFuel, traceChildren_congr fun c hc s =>
    traceFuel_eq_trace (by have := size_lt_of_mem_children hc; omega) s]

theorem forM_accept_ofHandler {cs : List AST}
    (h : ∀ c ∈ cs, ∀ s, (c.accept (.ofHandler handler)).run s = .ok ((), (trace handler c s).2))
    (s : σ) :
    (cs.forM (·.accept (.ofHandler handler))).run s =
      .ok ((), (traceChildren (trace handler) cs s).2) := by
  induction cs generalizing s with
  | nil => rfl
  | cons c cs inductionHypothesis =>
    simp only [List.forM, StateT.run_bind, h c (List.mem_cons_self _ _)]
    exact inductionHypothesis (fun c' hc' => h c' (List.mem_cons_of_mem _ hc')) _

/-- `accept` with a visitor that does not call `accept` runs as `trace` says. -/
theorem accept_ofHandler {t : AST} (ht : t.DictsPaired) (s : σ) :
    (t.accept (.ofHandler handler)).run s = .ok ((), (trace handler t s).2) := by
  induction t using children_induction generalizing s with
  | step n inductionHypothesis =>
    have visit_run : ∀ accept : AST → VisitM σ Unit,
        ((ASTVisitor.ofHandler handler).visit accept n).run s =
          .ok ((handler n s).2, (handler n s).1) := fun _ => rfl
    rw [accept_eq (ASTVisitor.ofHandler_local handler), trace_eq, StateT.run_bind, visit_run]
    cases (handler n s).2
    · simp only [bind, Except.bind, Bool.false_eq_true, if_false, visitChildren_eq _ _ ht.self]
      exact forM_accept_ofHandler (fun c hc => inductionHypothesis c hc (ht.child hc)) _
    · rfl

/-- Every call is on the node at its path. -/
theorem trace_get (t : AST) (s : σ) : ∀ c ∈ (trace handler t s).1, t.get? c.path = some c.node := by
  induction t using children_induction generalizing s with
  | step n inductionHypothesis =>
    rw [trace_eq]
    split
    · simp
    · rintro c (_ | ⟨_, hc⟩)
      · rfl
      · obtain ⟨j, block, d, hblock, hd, rfl⟩ := mem_indexBlocks.1 hc
        rw [traceChildren_getElem?] at hblock
        obtain ⟨child, hchild, rfl⟩ := Option.map_eq_some'.1 hblock
        simpa [hchild] using inductionHypothesis child (List.getElem?_mem hchild) _ d hd

/-- The paths of the calls increase lexicographically: the order of a
pre-order walk. -/
theorem trace_sorted (t : AST) (s : σ) :
    ((trace handler t s).1.map Call.path).Pairwise (List.Lex (· < ·)) := by
  induction t using children_induction generalizing s with
  | step n inductionHypothesis =>
    rw [trace_eq]
    split
    · simp
    · simp only [List.map_cons, List.pairwise_cons]
      refine ⟨fun p hp => ?_, indexBlocks_sorted fun block hblock => ?_⟩
      · obtain ⟨c, hc, rfl⟩ := List.mem_map.1 hp
        obtain ⟨j, -, d, -, -, rfl⟩ := mem_indexBlocks.1 hc
        exact List.Lex.nil
      · obtain ⟨c, hc, s', rfl⟩ := mem_traceChildren hblock
        exact inductionHypothesis c hc s'

/-- `accept` reaches a path of the tree exactly when every proper prefix was
reached by a call that did not skip. -/
theorem trace_reach (t : AST) (s : σ) (p : List Nat) :
    p ∈ (trace handler t s).1.map Call.path ↔
      (t.get? p).isSome ∧
        ∀ q, q <+: p → q ≠ p → ∃ c ∈ (trace handler t s).1, c.path = q ∧ c.skip = false := by
  induction t using children_induction generalizing s p with
  | step n inductionHypothesis =>
    rw [trace_eq]
    cases p with
    | nil => split <;> simp
    | cons k p =>
      split
      · refine ⟨fun h => by simp at h, fun ⟨_, h⟩ => ?_⟩
        obtain ⟨c, hc, -, hskip⟩ := h [] (List.nil_prefix) (List.cons_ne_nil k p).symm
        simp only [List.mem_singleton] at hc
        simp [hc] at hskip
      · next hskip =>
        generalize hstate : (traceChildren (trace handler) (n.children.take k) (handler n s).1).2 = sk
        have block : ∀ {q : List Nat} {P : Bool → Prop},
            (∃ c ∈ (⟨[], n, false⟩ :: indexBlocks 0
                (traceChildren (trace handler) n.children (handler n s).1).1),
              c.path = k :: q ∧ P c.skip) ↔
            ∃ child, n.children[k]? = some child ∧
              ∃ d ∈ (trace handler child sk).1, d.path = q ∧ P d.skip := by
          intro q P
          rw [List.exists_mem_cons_iff, ← Nat.zero_add k, exists_indexBlocks_path,
            traceChildren_getElem?, hstate]
          simp
        have prefixes : ∀ {R : List Nat → Prop}, (∀ q, q <+: k :: p → q ≠ k :: p → R q) ↔
            R [] ∧ ∀ q, q <+: p → q ≠ p → R (k :: q) := by
          intro R
          constructor
          · intro h
            exact ⟨h [] List.nil_prefix (List.cons_ne_nil k p).symm, fun q hq hne =>
              h (k :: q) (List.cons_prefix_cons.2 ⟨rfl, hq⟩) fun h' => hne (List.cons.inj h').2⟩
          · rintro ⟨h0, h1⟩ q hq hne
            rcases List.prefix_cons_iff.1 hq with rfl | ⟨q', rfl, hq'⟩
            · exact h0
            · exact h1 q' hq' fun h' => hne (h' ▸ rfl)
        have reached := @block p (fun _ => True)
        have below := fun q => @block q (· = false)
        simp only [and_true] at reached
        rw [prefixes, List.mem_map, reached]
        simp only [below]
        cases hchild : n.children[k]? with
        | none => simp [hchild]
        | some child =>
          have := inductionHypothesis child (List.getElem?_mem hchild) sk p
          simp only [List.mem_map] at this
          simp [hchild, this]
/-- A handler whose answer depends on the node alone is called on the nodes of
`prunedPreorder`, in its order. -/
theorem trace_prunedPreorder {stop : AST → Bool} (hstop : ∀ n s, (handler n s).2 = stop n)
    (t : AST) (s : σ) : (trace handler t s).1.map Call.node = t.prunedPreorder stop := by
  induction t using children_induction generalizing s with
  | step n inductionHypothesis =>
    rw [trace_eq, hstop, prunedPreorder_eq]
    cases stop n
    · simp only [Bool.false_eq_true, if_false, List.map_cons, List.flatMap_def,
        @indexBlocks_map _ Call.node (fun _ _ => rfl)]
      congr 2
      refine List.ext_getElem? fun k => ?_
      simp only [List.getElem?_map, traceChildren_getElem?, Option.map_map]
      cases h : n.children[k]? with
      | none => rfl
      | some c => simp [inductionHypothesis c (List.getElem?_mem h)]
    · rfl

theorem traceChildren_record {cs : List AST}
    (h : ∀ c ∈ cs, ∀ s log, trace (record handler) c (s, log) =
      ((trace handler c s).1, (trace handler c s).2,
        log ++ (trace handler c s).1.map fun c => (c.node, c.skip)))
    (s : σ) (log : List (AST × Bool)) :
    traceChildren (trace (record handler)) cs (s, log) =
      ((traceChildren (trace handler) cs s).1, (traceChildren (trace handler) cs s).2,
        log ++ ((traceChildren (trace handler) cs s).1.flatten.map fun c => (c.node, c.skip))) := by
  induction cs generalizing s log with
  | nil => simp [traceChildren]
  | cons c cs inductionHypothesis =>
    simp only [traceChildren, h c (List.mem_cons_self _ _),
      inductionHypothesis fun c' hc' => h c' (List.mem_cons_of_mem _ hc')]
    simp

/-- The recording handler makes the same calls and appends them to its log in
call order. -/
theorem trace_record (t : AST) (s : σ) (log : List (AST × Bool)) :
    trace (record handler) t (s, log) =
      ((trace handler t s).1, (trace handler t s).2,
        log ++ (trace handler t s).1.map fun c => (c.node, c.skip)) := by
  induction t using children_induction generalizing s log with
  | step n inductionHypothesis =>
    rw [trace_eq, @trace_eq _ handler,
      traceChildren_record fun c hc => inductionHypothesis c hc]
    cases h : (handler n s).2 <;>
      simp [record, h, @indexBlocks_map _ (fun c => (c.node, c.skip)) (fun _ _ => rfl)]

end

section

variable {σ : Type}

/-- What `t.accept` does with the visitor made of `handler`, from state `s`:
it ends in `final` after the handler calls `calls`. -/
structure AcceptSpec (handler : AST → σ → σ × Bool) (t : AST) (s : σ) (calls : List Call)
    (final : σ) : Prop where
  /-- The run ends normally, in `final`. -/
  run : (t.accept (.ofHandler handler)).run s = .ok ((), final)
  /-- Logging every call shows `calls`, in the order they are made. -/
  log : (t.accept (.ofHandler (record handler))).run (s, []) =
    .ok ((), final, calls.map fun c => (c.node, c.skip))
  /-- Every call is on a node of `t`, the one at its path. -/
  at_path : ∀ c ∈ calls, t.get? c.path = some c.node
  /-- No node is called twice. -/
  once : (calls.map Call.path).Nodup
  /-- A node is reached exactly when every proper ancestor was reached and did
  not skip. -/
  reached : ∀ p, p ∈ calls.map Call.path ↔
    (t.get? p).isSome ∧ ∀ q, q <+: p → q ≠ p → ∃ c ∈ calls, c.path = q ∧ c.skip = false
  /-- A node is called before its descendants. -/
  ancestors_first : calls.Pairwise fun c d => ¬ d.path <+: c.path
  /-- The calls inside any subtree are consecutive. -/
  contiguous : ∀ (p : List Nat) (i j k : Fin calls.length), i < j → j < k →
    p <+: (calls.get i).path → p <+: (calls.get k).path → p <+: (calls.get j).path
  /-- Nothing below a node that skipped is called. -/
  pruned : ∀ c ∈ calls, c.skip = true → ∀ d ∈ calls, c.path <+: d.path → d.path = c.path
  /-- A handler that never skips is called on every node, in pre-order. -/
  complete : (∀ n s, (handler n s).2 = false) → calls.map Call.node = t.preorder

theorem nodup_of_sorted {calls : List Call}
    (h : (calls.map Call.path).Pairwise (List.Lex (· < ·))) : (calls.map Call.path).Nodup :=
  h.imp fun hlex heq => by subst heq; exact not_lex_of_prefix (List.prefix_refl _) hlex

theorem contiguous_of_sorted {calls : List Call}
    (h : (calls.map Call.path).Pairwise (List.Lex (· < ·))) (p : List Nat)
    (i j k : Fin calls.length) (hij : i < j) (hjk : j < k)
    (hi : p <+: (calls.get i).path) (hk : p <+: (calls.get k).path) : p <+: (calls.get j).path := by
  have sorted := List.pairwise_iff_get.1 (List.pairwise_map.1 h)
  exact prefix_of_lex_between (sorted i j hij) (sorted j k hjk) hi hk

/-- `accept` with a visitor whose handlers do not call `accept` makes one
handler call per reached node, in pre-order, and reaches a node exactly when no
ancestor skipped. -/
theorem accept_visits_in_preorder (handler : AST → σ → σ × Bool) {t : AST}
    (ht : t.DictsPaired) (s : σ) : ∃ calls final, AcceptSpec handler t s calls final := by
  have reached := @trace_reach _ handler t s
  have sorted := @trace_sorted _ handler t s
  have once := nodup_of_sorted sorted
  refine ⟨(trace handler t s).1, (trace handler t s).2,
    { run := accept_ofHandler ht s
      log := by simpa [trace_record] using @accept_ofHandler _ (record handler) _ ht (s, [])
      at_path := trace_get t s
      once := once
      reached := reached
      ancestors_first := (List.pairwise_map.1 sorted).imp fun hlex hpre =>
        not_lex_of_prefix hpre hlex
      contiguous := contiguous_of_sorted sorted
      pruned := ?_
      complete := fun hnone => @trace_prunedPreorder _ handler (fun _ => false) hnone t s }⟩
  intro c hc hskip d hd hpre
  by_contra hne
  obtain ⟨e, he, hpath, heskip⟩ :=
    ((reached d.path).1 (List.mem_map_of_mem _ hd)).2 c.path hpre (Ne.symm hne)
  have : e = c := List.inj_on_of_nodup_map once he hc hpath
  simp [this, hskip] at heskip

theorem accept_visits_in_preorder_assign :
    (AST_Assign [AST_Name "a"] (AST_Name "b")).DictsPaired ∧
      ∃ calls final, AcceptSpec (fun _ (k : Nat) => (k + 1, false))
        (AST_Assign [AST_Name "a"] (AST_Name "b")) 0 calls final :=
  ⟨by decide, accept_visits_in_preorder _ (by decide) 0⟩

/-- A comprehension clause is visited target first, then `iter`; a class's
bases come before its decorators. -/
theorem accept_comprehension_target_first :
    ((AST_comprehension (AST_Name "x") (AST_Name "xs") []).accept
        (.ofHandler (record fun _ (u : Unit) => (u, false)))).run ((), []) =
      .ok ((), (), [(AST_comprehension (AST_Name "x") (AST_Name "xs") [], false),
        (AST_Name "x", false), (AST_Name "xs", false)]) ∧
    ((AST_ClassDef "C" [AST_Name "B"] [AST_Pass] [AST_Name "d"]).accept
        (.ofHandler (record fun _ (u : Unit) => (u, false)))).run ((), []) =
      .ok ((), (), [(AST_ClassDef "C" [AST_Name "B"] [AST_Pass] [AST_Name "d"], false),
        (AST_Name "B", false), (AST_Name "d", false), (AST_Pass, false)]) :=
  ⟨rfl, rfl⟩

end

end PystonAst
