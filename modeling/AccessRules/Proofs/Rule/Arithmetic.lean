import AccessRules.Proofs.Path.Readback
import AccessRules.Rule.Build
import AccessRules.Rule.Render

/-! Sums and differences in conditions. They are written without parentheses, so the text of a rule
shows its terms and the operators between them and nothing of its nesting
(`Arithmetic.Computation.render_eq_iff`). Read from left to right, the text has the value of the rule
as long as only single terms are subtracted (`Arithmetic.Computation.eval_chain`); it does not tell
where a difference is subtracted, though the value does (`Arithmetic.render_sub_sub`). -/

namespace AccessRules.Arithmetic

/-- A number or an accepted path. -/
inductive Term where
  | int (n : Int64)
  | path (p : Path) (h : p.Accepted)

namespace Term

def value : Term → Value
  | .int n => .int n
  | .path p _ => .path p

def text (t : Term) : List Char :=
  t.value.render.toList

def eval (v : Path → Int) : Term → Int
  | .int n => n.toInt
  | .path p _ => v p

end Term

/-- Sums and differences of terms. -/
inductive Expression where
  | term (t : Term)
  | add (a b : Expression)
  | sub (a b : Expression)

namespace Expression

def operand : Expression → Operand
  | .term t => .ofValue t.value
  | .add a b => .rule (.add a.operand b.operand)
  | .sub a b => .rule (.sub a.operand b.operand)

def eval (v : Path → Int) : Expression → Int
  | .term t => t.eval v
  | .add a b => a.eval v + b.eval v
  | .sub a b => a.eval v - b.eval v

def isTerm : Expression → Bool
  | .term _ => true
  | _ => false

/-- Whether only single terms are subtracted. -/
def subtractsTerms : Expression → Bool
  | .term _ => true
  | .add a b => a.subtractsTerms && b.subtractsTerms
  | .sub a b => a.subtractsTerms && b.isTerm

end Expression

/-- What an operator makes of two integers. -/
def apply : Operator → Int → Int → Int ⊕ Bool
  | .add, m, n => .inl (m + n)
  | .sub, m, n => .inl (m - n)
  | .eq, m, n => .inr (m = n)
  | .ne, m, n => .inr (m ≠ n)
  | .lt, m, n => .inr (m < n)
  | .le, m, n => .inr (m ≤ n)
  | .gt, m, n => .inr (m > n)
  | .ge, m, n => .inr (m ≥ n)

/-- A sum, a difference or a comparison of two expressions. -/
structure Computation where
  op : Operator
  left : Expression
  right : Expression

namespace Computation

def rule (c : Computation) : Rule :=
  .binary c.op c.left.operand c.right.operand

def eval (v : Path → Int) (c : Computation) : Int ⊕ Bool :=
  apply c.op (c.left.eval v) (c.right.eval v)

def subtractsTerms (c : Computation) : Bool :=
  c.left.subtractsTerms && c.right.subtractsTerms && (c.op != .sub || c.right.isTerm)

end Computation

/-! ## Chains -/

/-- A term, and further terms behind their operators. -/
structure Chain where
  first : Term
  rest : List (Operator × Term)

namespace Chain

def restText (rest : List (Operator × Term)) : List Char :=
  rest.flatMap fun e => ' ' :: (e.1.symbol.toList ++ ' ' :: e.2.text)

def text (c : Chain) : List Char :=
  c.first.text ++ restText c.rest

def join (c : Chain) (op : Operator) (d : Chain) : Chain :=
  ⟨c.first, c.rest ++ (op, d.first) :: d.rest⟩

/-- The value of terms behind their operators, read from left to right from a first value. -/
def read (v : Path → Int) : Int → List (Operator × Term) → Int ⊕ Bool
  | m, [] => .inl m
  | m, (.add, t) :: rest => read v (m + t.eval v) rest
  | m, (.sub, t) :: rest => read v (m - t.eval v) rest
  | m, (op, t) :: rest => (read v (t.eval v) rest).elim (apply op m) .inr

def eval (v : Path → Int) (c : Chain) : Int ⊕ Bool :=
  read v (c.first.eval v) c.rest

theorem join_assoc (c d e : Chain) (op op' : Operator) :
    (c.join op d).join op' e = c.join op (d.join op' e) := by
  simp [join]

end Chain

def Expression.chain : Expression → Chain
  | .term t => ⟨t, []⟩
  | .add a b => a.chain.join .add b.chain
  | .sub a b => a.chain.join .sub b.chain

def Computation.chain (c : Computation) : Chain :=
  c.left.chain.join c.op c.right.chain

/-! ## Text -/

theorem notMem_symbol (op : Operator) : ' ' ∉ op.symbol.toList := by
  cases op <;> decide

theorem symbol_inj {op op' : Operator} (h : op.symbol.toList = op'.symbol.toList) : op = op' := by
  cases op <;> cases op' <;> first | rfl | exact absurd h (by decide)

namespace Term

theorem notMem_text (t : Term) : ' ' ∉ t.text := by
  intro hblank
  cases t with
  | int n =>
    rcases isDigit_or_of_mem_intRepr hblank with h | h
    · exact absurd h (by decide)
    · exact absurd h (by decide)
  | path p h => exact h.notMem rfl (by decide) hblank

theorem text_int_ne_text_path (n : Int64) (h : p.Accepted) : (int n).text ≠ (path p h).text := by
  intro heq
  obtain ⟨c, cs, hp, hstart⟩ := h.exists_cons
  simp only [text, value, Value.render, hp] at heq
  rcases isDigit_or_of_mem_intRepr (heq ▸ List.mem_cons_self) with hc | rfl
  · rw [Path.isDigit_of_isIdentStart hstart] at hc
    cases hc
  · cases hstart

theorem text_inj {t u : Term} (h : t.text = u.text) : t = u := by
  cases t with
  | int n =>
    cases u with
    | int m => rw [Int64.toInt_inj.mp (intRepr_inj (String.toList_inj.mp h))]
    | path p hp => exact absurd h (text_int_ne_text_path n hp)
  | path p hp =>
    cases u with
    | int m => exact absurd h.symm (text_int_ne_text_path m hp)
    | path q hq =>
      obtain ⟨s⟩ := p
      obtain ⟨s'⟩ := q
      obtain rfl : s = s' := String.toList_inj.mp h
      rfl

end Term

namespace Chain

theorem text_join (c : Chain) (op : Operator) (d : Chain) :
    (c.join op d).text = c.text ++ ' ' :: (op.symbol.toList ++ ' ' :: d.text) := by
  simp [text, join, restText]

/-- A term ends where the text of further terms starts. -/
theorem append_restText_inj {t u : Term} {rest rest' : List (Operator × Term)}
    (h : t.text ++ restText rest = u.text ++ restText rest') :
    t = u ∧ restText rest = restText rest' := by
  have hterm : ∀ t : Term, ∀ c ∈ t.text, c != ' ' := fun t c hc => by
    rw [bne_iff_ne]
    rintro rfl
    exact t.notMem_text hc
  have hrest : ∀ rest, ∀ c ∈ (restText rest).head?, (c != ' ') = false := fun rest => by
    cases rest with
    | nil => exact fun c hc => nomatch hc
    | cons e rest =>
      exact stop_cons rfl _
  obtain ⟨htext, htail⟩ := span_inj (hterm t) (hterm u) (hrest rest) (hrest rest') h
  exact ⟨Term.text_inj htext, htail⟩

theorem restText_cons (op : Operator) (t : Term) (rest : List (Operator × Term)) :
    restText ((op, t) :: rest) =
      ' ' :: (op.symbol.toList ++ ' ' :: (t.text ++ restText rest)) := by
  simp [restText]

theorem restText_inj {rest rest' : List (Operator × Term)} (h : restText rest = restText rest') :
    rest = rest' := by
  induction rest generalizing rest' with
  | nil =>
    cases rest' with
    | nil => rfl
    | cons e rest' => cases h
  | cons e rest ih =>
    cases rest' with
    | nil => cases h
    | cons e' rest' =>
      rw [restText_cons, restText_cons] at h
      obtain ⟨hop, htail⟩ := cut_inj (notMem_symbol e.1) (notMem_symbol e'.1) (List.cons.inj h).2
      obtain ⟨hterm, hrest⟩ := append_restText_inj htail
      rw [ih hrest, Prod.ext (symbol_inj hop) hterm]

theorem text_inj {c d : Chain} (h : c.text = d.text) : c = d := by
  obtain ⟨t, rest⟩ := c
  obtain ⟨u, rest'⟩ := d
  obtain ⟨hterm, hrest⟩ := append_restText_inj h
  exact congr (congrArg mk hterm) (restText_inj hrest)

end Chain

theorem toList_render_binary (op : Operator) (a b : Operand) :
    (Rule.binary op a b).render.toList =
      a.render.toList ++ ' ' :: (op.symbol.toList ++ ' ' :: b.render.toList) := by
  simp [Rule.render]

theorem Expression.toList_render (e : Expression) : e.operand.render.toList = e.chain.text := by
  induction e with
  | term t =>
    rw [operand, Operand.render_ofValue]
    simp [chain, Chain.text, Chain.restText, Term.text]
  | add a b iha ihb =>
    rw [operand, Operand.render, Rule.add, toList_render_binary, iha, ihb, chain, Chain.text_join]
  | sub a b iha ihb =>
    rw [operand, Operand.render, Rule.sub, toList_render_binary, iha, ihb, chain, Chain.text_join]

theorem Computation.toList_render (c : Computation) : c.rule.render.toList = c.chain.text := by
  rw [rule, toList_render_binary, c.left.toList_render, c.right.toList_render, chain,
    Chain.text_join]

/-- The text of a rule shows its terms and operators in order, and no more. -/
theorem Computation.render_eq_iff (c d : Computation) :
    c.rule.render = d.rule.render ↔ c.chain = d.chain := by
  rw [← String.toList_inj, toList_render, toList_render]
  exact ⟨Chain.text_inj, congrArg Chain.text⟩

/-! ## Value -/

/-- Behind a sum that is open on the left, an expression counts as its value. -/
theorem Expression.read_append (e : Expression) (he : e.subtractsTerms) (v : Path → Int) (m : Int)
    (rest : List (Operator × Term)) :
    Chain.read v (m + e.chain.first.eval v) (e.chain.rest ++ rest) =
      Chain.read v (m + e.eval v) rest := by
  -- The left part is read in front of the right part, and the right part behind the left one's value.
  induction e generalizing m rest with
  | term t => rfl
  | add a b iha ihb =>
    obtain ⟨ha, hb⟩ := Bool.and_eq_true_iff.mp he
    simp only [chain, Chain.join, List.append_assoc, List.cons_append]
    rw [iha ha, Chain.read, ihb hb, eval, Int.add_assoc]
  | sub a b iha _ =>
    obtain ⟨ha, hb⟩ := Bool.and_eq_true_iff.mp he
    cases b with
    | term t =>
      simp only [chain, Chain.join, List.append_assoc, List.cons_append, List.nil_append]
      rw [iha ha, Chain.read, eval, eval, Int.add_sub_assoc]
    | add _ _ | sub _ _ => cases hb

theorem Expression.read_first (e : Expression) (he : e.subtractsTerms) (v : Path → Int)
    (rest : List (Operator × Term)) :
    Chain.read v (e.chain.first.eval v) (e.chain.rest ++ rest) = Chain.read v (e.eval v) rest := by
  have h := e.read_append he v 0 rest
  rwa [Int.zero_add, Int.zero_add] at h

theorem Expression.eval_chain (e : Expression) (he : e.subtractsTerms) (v : Path → Int) :
    e.chain.eval v = .inl (e.eval v) := by
  have h := e.read_first he v []
  rwa [List.append_nil] at h

theorem Computation.eval_chain (c : Computation) (hc : c.subtractsTerms) (v : Path → Int) :
    c.chain.eval v = c.eval v := by
  obtain ⟨op, a, b⟩ := c
  simp only [subtractsTerms, Bool.and_eq_true] at hc
  obtain ⟨⟨ha, hb⟩, hop⟩ := hc
  cases op with
  | add => exact (Expression.add a b).eval_chain (Bool.and_eq_true_iff.mpr ⟨ha, hb⟩) v
  | sub => exact (Expression.sub a b).eval_chain (Bool.and_eq_true_iff.mpr ⟨ha, hop⟩) v
  | eq | ne | lt | le | gt | ge =>
    have hright := b.eval_chain hb v
    rw [Chain.eval] at hright
    rw [Chain.eval, chain, Chain.join, a.read_first ha, Chain.read, hright]
    · rfl
    · nofun
    · nofun

/-- Rules with the same text have the same value under every assignment, if only single terms are
subtracted in them. -/
theorem eval_eq_of_render_eq (c d : Computation) (hc : c.subtractsTerms) (hd : d.subtractsTerms)
    (h : c.rule.render = d.rule.render) (v : Path → Int) : c.eval v = d.eval v := by
  rw [← c.eval_chain hc, ← d.eval_chain hd, (c.render_eq_iff d).mp h]

def sizeTerm : Term :=
  .path ⟨"size"⟩ (Path.readable_root (by decide)).accepted

theorem eval_eq_of_nested_sum :
    let c : Computation :=
      ⟨.le, .add (.term sizeTerm) (.sub (.term (.int 2)) (.term sizeTerm)), .term (.int (-1))⟩
    let d : Computation :=
      ⟨.le, .sub (.add (.term sizeTerm) (.term (.int 2))) (.term sizeTerm), .term (.int (-1))⟩
    c.subtractsTerms ∧ d.subtractsTerms ∧ c.rule.render = d.rule.render ∧
      c.eval (fun _ => 7) = d.eval fun _ => 7 := by
  intro c d
  have hc : c.subtractsTerms := rfl
  have hd : d.subtractsTerms := rfl
  have h : c.rule.render = d.rule.render := by decide
  exact ⟨hc, hd, h, eval_eq_of_render_eq c d hc hd h _⟩

/-- Two differences one after the other are written like a difference that is subtracted, and they have
the same value just if the last expression counts for nothing. -/
theorem render_sub_sub (a b c : Expression) :
    (Computation.mk .sub a (.sub b c)).rule.render =
        (Computation.mk .sub (.sub a b) c).rule.render ∧
      ∀ v : Path → Int, (Computation.mk .sub a (.sub b c)).eval v =
        (Computation.mk .sub (.sub a b) c).eval v ↔ c.eval v = 0 := by
  refine ⟨(Computation.render_eq_iff _ _).mpr ?_, fun v => ?_⟩
  · exact (Chain.join_assoc a.chain b.chain c.chain .sub .sub).symm
  · simp only [Computation.eval, apply, Expression.eval, Sum.inl.injEq]
    omega

theorem render_eq_of_nested_difference :
    let c : Computation := ⟨.sub, .term (.int 10), .sub (.term (.int 5)) (.term (.int 3))⟩
    let d : Computation := ⟨.sub, .sub (.term (.int 10)) (.term (.int 5)), .term (.int 3)⟩
    c.rule.render = "10 - 5 - 3" ∧ c.rule.render = d.rule.render ∧
      c.eval (fun _ => 0) = .inl 8 ∧ d.eval (fun _ => 0) = .inl 2 :=
  ⟨by decide, (render_sub_sub _ _ _).1, rfl, rfl⟩

end AccessRules.Arithmetic
