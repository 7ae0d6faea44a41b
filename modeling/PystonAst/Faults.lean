import PystonAst.Traversal

/-!
# How `accept` can fail

The one read the `accept` methods do not guard is `values[i]` in
`AST_Dict::accept`, which goes out of range on a Dict with fewer values than
keys. With a visitor whose handlers do not call `accept`, `accept` on any tree
either returns, or stops on that read, and then the tree has a Dict with fewer
values than keys among the nodes `accept` can reach
(`accept_returns_or_short_dict`). A visitor that skips no node stops exactly on
such a tree (`accept_outOfRange_iff_short_dict`). For one Dict the visitor does
not skip, over children that meet the contract, the read goes out of range
exactly when there are fewer values than keys, and otherwise the Dict returns
(`accept_dict_outOfRange_iff`).
-/

namespace PystonAst

open AST

/-- `AST_Dict::accept` reads no value past the end of `values`: the Dict has
at least as many values as keys. No other node reads one. -/
def AST.valuesCoverKeys : AST → Bool
  | AST_Dict keys values => decide (keys.length ≤ values.length)
  | _ => true

theorem exists_dict_of_valuesCoverKeys_eq_false {n : AST} (h : n.valuesCoverKeys = false) :
    ∃ keys values, n = AST_Dict keys values ∧ values.length < keys.length := by
  cases n
  case AST_Dict keys values => exact ⟨keys, values, rfl, by simpa [valuesCoverKeys] using h⟩
  all_goals cases h

section

variable {σ : Type}

/-- A computation that returns, or stops on an out-of-range read and then only
when `short` holds. -/
def ReturnsOr (short : Prop) (x : VisitM σ Unit) : Prop :=
  ∀ s, (∃ s', x.run s = .ok ((), s')) ∨ (x.run s = .error .outOfRange ∧ short)

theorem ReturnsOr.mono {p q : Prop} {x : VisitM σ Unit} (hpq : p → q) (hx : ReturnsOr p x) :
    ReturnsOr q x :=
  fun s => (hx s).imp_right (And.imp_right hpq)

theorem ReturnsOr.bind {p q : Prop} {x y : VisitM σ Unit} (hx : ReturnsOr p x)
    (hy : ReturnsOr q y) : ReturnsOr (p ∨ q) (x >>= fun _ => y) := by
  intro s
  rcases hx s with ⟨s', hs'⟩ | ⟨hs', hp⟩ <;> simp only [StateT.run_bind, hs']
  · exact (hy s').imp_right (And.imp_right .inr)
  · exact .inr ⟨rfl, .inl hp⟩

theorem ReturnsOr.forM {α : Type} {short : α → Prop} {accept : α → VisitM σ Unit} :
    ∀ {cs : List α}, (∀ c ∈ cs, ReturnsOr (short c) (accept c)) →
      ReturnsOr (∃ c ∈ cs, short c) (cs.forM accept)
  | [], _ => fun s => .inl ⟨s, rfl⟩
  | c :: _, h => ((h c (List.mem_cons_self _ _)).bind
      (ReturnsOr.forM fun c' hc' => h c' (List.mem_cons_of_mem _ hc'))).mono fun
        | .inl hc => ⟨c, List.mem_cons_self _ _, hc⟩
        | .inr ⟨c', hc', h'⟩ => ⟨c', List.mem_cons_of_mem _ hc', h'⟩

/-- The loop of `AST_Dict::accept` returns or reads out of range, when every
key and value it accepts does. -/
theorem visitKeysValues_returnsOr {accept : AST → VisitM σ Unit} :
    ∀ {keys values : List AST}, (∀ c ∈ keys ++ values, ReturnsOr True (accept c)) →
      ReturnsOr True (visitKeysValues accept keys values)
  | [], _, _ => fun s => .inl ⟨s, rfl⟩
  | key :: keys, [], h =>
    ((h key (by simp)).bind fun _ => .inr ⟨rfl, trivial⟩).mono fun _ => trivial
  | key :: keys, value :: values, h =>
    ((h key (by simp)).bind ((h value (by simp)).bind
      (visitKeysValues_returnsOr fun c hc => h c (by simp at hc ⊢; tauto)))).mono fun _ => trivial

/-- With a value for every key, the loop accepts the pairs and nothing else. -/
theorem visitKeysValues_eq_of_le (accept : AST → VisitM σ Unit) :
    ∀ {keys values : List AST}, keys.length ≤ values.length →
      visitKeysValues accept keys values = (interleave keys values).forM accept
  | [], _, _ => rfl
  | _ :: _, _ :: _, h => by
    simp [visitKeysValues, interleave, visitKeysValues_eq_of_le accept (Nat.le_of_succ_le_succ h)]

/-- Once the handler has not skipped a node that reads no value out of range,
`accept` visits `children` in order. -/
theorem visitChildren_eq_of_valuesCoverKeys (accept : AST → VisitM σ Unit) {n : AST}
    (h : n.valuesCoverKeys = true) : visitChildren accept n = n.children.forM accept := by
  cases n
  case AST_Dict keys values =>
    exact visitKeysValues_eq_of_le accept (by simpa [valuesCoverKeys] using h)
  all_goals exact visitChildren_eq accept _ rfl

theorem run_bind_ok {x y : VisitM σ Unit} {s s' : σ}
    (h : (x >>= fun _ => y).run s = .ok ((), s')) :
    ∃ s₁, x.run s = .ok ((), s₁) ∧ y.run s₁ = .ok ((), s') := by
  rw [StateT.run_bind] at h
  cases hx : x.run s with
  | error e => rw [hx] at h; cases h
  | ok p => rw [hx] at h; exact ⟨p.2, rfl, h⟩

/-- A loop that returns has run each body from some state to its end. -/
theorem forM_ok {α : Type} {accept : α → VisitM σ Unit} :
    ∀ {cs : List α} {s s' : σ}, (cs.forM accept).run s = .ok ((), s') →
      ∀ c ∈ cs, ∃ s₀ s₁, (accept c).run s₀ = .ok ((), s₁)
  | c :: _, _, _, h, c', hc' => by
    obtain ⟨s₁, h₁, hrest⟩ := run_bind_ok h
    rcases List.mem_cons.1 hc' with rfl | hc'
    · exact ⟨_, _, h₁⟩
    · exact forM_ok hrest c' hc'

/-- The Dict loop returns only when every key has a value. -/
theorem le_of_visitKeysValues_ok {accept : AST → VisitM σ Unit} :
    ∀ {keys values : List AST} {s s' : σ},
      (visitKeysValues accept keys values).run s = .ok ((), s') → keys.length ≤ values.length
  | [], _, _, _, _ => Nat.zero_le _
  | _ :: _, [], _, _, h => by
    obtain ⟨_, _, h⟩ := run_bind_ok h
    cases h
  | _ :: _, _ :: _, _, _, h => by
    obtain ⟨_, _, h⟩ := run_bind_ok h
    obtain ⟨_, _, h⟩ := run_bind_ok h
    exact Nat.succ_le_succ (le_of_visitKeysValues_ok h)

/-- One call of `accept` with a visitor that does not call `accept`: the
handler, then the children unless it skipped. -/
theorem accept_ofHandler_run (handler : AST → σ → σ × Bool) (n : AST) (s : σ) :
    (n.accept (.ofHandler handler)).run s =
      (if (handler n s).2 then pure () else
        visitChildren (·.accept (.ofHandler handler)) n).run (handler n s).1 := by
  rw [accept_eq (ASTVisitor.ofHandler_local handler), StateT.run_bind]
  rfl

/-- `accept` with a visitor that does not call `accept`, from any state, returns
or reads out of range; it reads out of range only on a tree that has a Dict
with fewer values than keys, reached through the pairs the Dicts above it
visit. -/
theorem accept_returnsOr_short (handler : AST → σ → σ × Bool) (t : AST) :
    ReturnsOr (∃ m ∈ t.preorder, m.valuesCoverKeys = false) (t.accept (.ofHandler handler)) := by
  induction t using fields_induction with
  | step n inductionHypothesis =>
    intro s
    rw [accept_ofHandler_run]
    split
    · exact .inl ⟨_, rfl⟩
    cases hcover : n.valuesCoverKeys
    · obtain ⟨keys, values, rfl, -⟩ := exists_dict_of_valuesCoverKeys_eq_false hcover
      refine ((visitKeysValues_returnsOr fun c hc => (inductionHypothesis c hc).mono fun _ =>
        trivial).mono fun _ => ⟨_, mem_preorder_self _, hcover⟩) _
    · rw [visitChildren_eq_of_valuesCoverKeys _ hcover]
      refine ((ReturnsOr.forM fun c hc =>
        inductionHypothesis c (mem_fields_of_mem_children hc)).mono
          fun ⟨c, hc, m, hm, hshort⟩ => ⟨m, preorder_subset hc hm, hshort⟩) _

/-- A visitor that skips no node never returns from a tree that has a Dict with
fewer values than keys. -/
theorem accept_ne_ok_of_short (handler : AST → σ → σ × Bool)
    (hvisit : ∀ n s, (handler n s).2 = false) {t : AST}
    (hshort : ∃ m ∈ t.preorder, m.valuesCoverKeys = false) (s s' : σ) :
    (t.accept (.ofHandler handler)).run s ≠ .ok ((), s') := by
  induction t using children_induction generalizing s s' with
  | step n inductionHypothesis =>
    obtain ⟨m, hm, hm'⟩ := hshort
    intro hok
    rw [accept_ofHandler_run, hvisit, if_neg Bool.false_ne_true] at hok
    cases hcover : n.valuesCoverKeys
    · obtain ⟨keys, values, rfl, hlt⟩ := exists_dict_of_valuesCoverKeys_eq_false hcover
      exact absurd (le_of_visitKeysValues_ok hok) (Nat.not_le_of_lt hlt)
    rw [visitChildren_eq_of_valuesCoverKeys _ hcover] at hok
    rw [preorder_eq] at hm
    rcases List.mem_cons.1 hm with rfl | hm
    · exact Bool.false_ne_true (hm'.symm.trans hcover)
    obtain ⟨c, hc, hmc⟩ := List.mem_flatMap.1 hm
    obtain ⟨s₀, s₁, h₀⟩ := forM_ok hok c hc
    exact inductionHypothesis c hc ⟨m, hmc, hm'⟩ s₀ s₁ h₀

/-- `accept` with a visitor whose handlers do not call `accept`, on any tree
and from any state, returns; or it stops on an out-of-range read of `values`
in `AST_Dict::accept`, and then a Dict with fewer values than keys is among the
nodes `accept` can reach. No other fault is possible. -/
theorem accept_returns_or_short_dict (handler : AST → σ → σ × Bool) (t : AST) (s : σ) :
    (∃ s', (t.accept (.ofHandler handler)).run s = .ok ((), s')) ∨
      ((t.accept (.ofHandler handler)).run s = .error .outOfRange ∧
        ∃ m ∈ t.preorder, m.valuesCoverKeys = false) :=
  accept_returnsOr_short handler t s

/-- With a visitor that skips no node, `accept` stops on an out-of-range read
exactly on a tree that has a Dict with fewer values than keys. -/
theorem accept_outOfRange_iff_short_dict (handler : AST → σ → σ × Bool)
    (hvisit : ∀ n s, (handler n s).2 = false) (t : AST) (s : σ) :
    (t.accept (.ofHandler handler)).run s = .error .outOfRange ↔
      ∃ m ∈ t.preorder, m.valuesCoverKeys = false := by
  rcases accept_returnsOr_short handler t s with ⟨s', hok⟩ | ⟨herr, hshort⟩
  · rw [hok]
    exact iff_of_false Except.noConfusion fun hshort =>
      accept_ne_ok_of_short handler hvisit hshort s s' hok
  · exact iff_of_true herr hshort

theorem accept_outOfRange_iff_short_dict_nested :
    (∀ (n : AST) (count : Nat),
      ((fun (_ : AST) (count : Nat) => (count + 1, false)) n count).2 = false) ∧
    (((AST_Expr (AST_Dict [AST_Name "a", AST_Name "b"] [AST_Name "x"])).accept
        (.ofHandler fun (_ : AST) (count : Nat) => (count + 1, false))).run 0 =
        .error .outOfRange ↔
      ∃ m ∈ (AST_Expr (AST_Dict [AST_Name "a", AST_Name "b"] [AST_Name "x"])).preorder,
        m.valuesCoverKeys = false) :=
  ⟨fun _ _ => rfl, accept_outOfRange_iff_short_dict _ (fun _ _ => rfl) _ 0⟩

/-- A Dict whose handler does not skip it, over children that meet the
contract, makes `accept` read out of range exactly when it has fewer values
than keys; with at least as many values as keys it returns. -/
theorem accept_dict_outOfRange_iff (handler : AST → σ → σ × Bool) {keys values : List AST}
    (hsub : ∀ c ∈ keys ++ values, c.DictsPaired) (s : σ)
    (hvisit : (handler (AST_Dict keys values) s).2 = false) :
    (((AST_Dict keys values).accept (.ofHandler handler)).run s = .error .outOfRange ↔
      values.length < keys.length) ∧
    (keys.length ≤ values.length →
      ∃ s', ((AST_Dict keys values).accept (.ofHandler handler)).run s = .ok ((), s')) := by
  have returns : ∀ c ∈ keys ++ values, ReturnsOr False (c.accept (.ofHandler handler)) :=
    fun c hc s => .inl ⟨_, accept_ofHandler (hsub c hc) s⟩
  rw [accept_ofHandler_run, hvisit, if_neg Bool.false_ne_true]
  rcases Nat.lt_or_ge values.length keys.length with hlt | hle
  · refine ⟨iff_of_true ?_ hlt, fun hle => absurd hle (Nat.not_le_of_lt hlt)⟩
    rcases visitKeysValues_returnsOr (fun c hc => (returns c hc).mono False.elim)
      (handler (AST_Dict keys values) s).1 with ⟨_, hok⟩ | ⟨herr, -⟩
    · exact absurd (le_of_visitKeysValues_ok hok) (Nat.not_le_of_lt hlt)
    · exact herr
  · rw [visitChildren_eq_of_valuesCoverKeys _ (by simpa [valuesCoverKeys] using hle)]
    obtain ⟨s', hok⟩ | ⟨-, ⟨_, _, ⟨⟩⟩⟩ := ReturnsOr.forM
      (fun c hc => returns c (mem_fields_of_mem_children (n := AST_Dict keys values) hc))
      (handler (AST_Dict keys values) s).1
    rw [hok]
    exact ⟨iff_of_false Except.noConfusion (Nat.not_lt_of_ge hle), fun _ => ⟨s', rfl⟩⟩

theorem accept_dict_outOfRange_short :
    (∀ c ∈ [AST_Name "a", AST_Name "b"] ++ [AST_Name "x"], c.DictsPaired) ∧
    ((fun (_ : AST) (count : Nat) => (count + 1, false))
      (AST_Dict [AST_Name "a", AST_Name "b"] [AST_Name "x"]) 0).2 = false ∧
    ((((AST_Dict [AST_Name "a", AST_Name "b"] [AST_Name "x"]).accept
        (.ofHandler fun (_ : AST) (count : Nat) => (count + 1, false))).run 0 =
        .error .outOfRange ↔ [AST_Name "x"].length < [AST_Name "a", AST_Name "b"].length) ∧
      ([AST_Name "a", AST_Name "b"].length ≤ [AST_Name "x"].length →
        ∃ s', ((AST_Dict [AST_Name "a", AST_Name "b"] [AST_Name "x"]).accept
          (.ofHandler fun (_ : AST) (count : Nat) => (count + 1, false))).run 0 = .ok ((), s'))) :=
  ⟨by decide, rfl, accept_dict_outOfRange_iff _ (by decide) 0 rfl⟩

end

end PystonAst
