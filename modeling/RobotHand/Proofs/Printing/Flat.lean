import RobotHand.Proofs.Control.Blanks
import RobotHand.Proofs.Evaluation.Nesting

/-! Formulas without parentheses: numerals with minus signs before them, and operators between.
Their texts, and the trees that these compile to. -/
namespace RobotHand.Formula

/-- A numeral with minus signs before it. -/
structure Signed where
  minuses : Nat
  numeral : Numeral

/-- An operator that joins two operands, and the operand to its right. -/
structure Joint where
  op : Operator
  level : Operator.Precedence
  joins : op.precedence? = some level
  operand : Signed

/-- An operand, and further ones with their operators. -/
structure Flat where
  first : Signed
  rest : List Joint

namespace Signed

def text (a : Signed) : List Char := List.replicate a.minuses '-' ++ a.numeral.text

def tokens (a : Signed) : List Token :=
  List.replicate a.minuses ⟨.operator .subtract, "-"⟩ ++
    [⟨.number (some a.numeral.value), String.ofList a.numeral.text⟩]

def tree (a : Signed) : Expr := Pending.negate a.minuses (.number a.numeral.value)

variable (a : Signed)

theorem text_ne_nil : a.text ≠ [] := by
  obtain ⟨c, cs, htext, -⟩ := a.numeral.text_eq_cons
  simp [text, htext]

theorem scan_text {rest : List Char} (h : Boundary rest) :
    scan (a.text ++ rest) = a.tokens ++ scan rest := by
  obtain ⟨minuses, numeral⟩ := a
  simp only [text, tokens]
  induction minuses with
  | zero => exact numeral.scan_text h
  | succ n ih =>
    rw [List.replicate_succ, List.replicate_succ, List.cons_append, List.cons_append, scan_mark rfl,
      ih]
    rfl

theorem isOperand : IsOperand a.minuses a.tokens a.tree := by
  have hsigns : AreMinuses a.minuses (List.replicate a.minuses ⟨.operator .subtract, "-"⟩) :=
    ⟨List.length_replicate, fun t ht => congrArg Token.kind (List.eq_of_mem_replicate ht)⟩
  have hnumber : IsOperand 0 [⟨.number (some a.numeral.value), String.ofList a.numeral.text⟩]
      (.number a.numeral.value) := .number
  have hoperand := hnumber.negate hsigns
  rwa [Nat.zero_add] at hoperand

theorem kind_ne_opening : ∀ t ∈ a.tokens, t.kind ≠ .opening := by
  intro t ht
  rcases List.mem_append.1 ht with ht | ht
  · rw [List.eq_of_mem_replicate ht]
    exact nofun
  · rw [List.mem_singleton.1 ht]
    exact nofun

end Signed

namespace Joint

def text (j : Joint) : List Char := j.op.symbol.toList ++ j.operand.text

def tokens (j : Joint) : List Token := ⟨.operator j.op, j.op.symbol⟩ :: j.operand.tokens

variable {l : List Joint}

/-- The operator is written as a single mark. -/
theorem text_eq (j : Joint) : ∃ c, mark? c = some (.operator j.op) ∧ c ≠ '(' ∧
    j.op.symbol = c.toString ∧ j.text = c :: j.operand.text := by
  obtain ⟨c, hmark, hsymbol, hc⟩ := Operator.symbol_eq (Option.isSome_of_eq_some j.joins)
  exact ⟨c, hmark, hc, hsymbol, by simp [text, hsymbol]⟩

theorem boundary_texts (l : List Joint) : Boundary (l.flatMap text) := by
  cases l with
  | nil => exact fun c hc => nomatch hc
  | cons j l =>
    obtain ⟨c, hmark, hc, -, htext⟩ := j.text_eq
    rw [List.flatMap_cons, htext]
    exact boundary_cons _ (Option.isSome_of_eq_some hmark) hc

theorem scan_texts (l : List Joint) : scan (l.flatMap text) = l.flatMap tokens := by
  induction l with
  | nil => exact scan_nil
  | cons j l ih =>
    obtain ⟨c, hmark, -, hsymbol, htext⟩ := j.text_eq
    rw [List.flatMap_cons, htext, List.cons_append, scan_mark hmark,
      j.operand.scan_text (boundary_texts l), ih, List.flatMap_cons, tokens, hsymbol]
    rfl

/-- What follows an operand, cut before each operator of a sum: first what belongs to the product of
the operand, then for each further product its operator and operand with what belongs to it. -/
def cut : List Joint → List Joint × List (Joint × List Joint)
  | [] => ([], [])
  | j :: l =>
    match j.level with
    | .sum => ([], (j, (cut l).1) :: (cut l).2)
    | .product => (j :: (cut l).1, (cut l).2)

/-- The pieces make up the whole, and the cuts are at the operators of sums. -/
theorem cut_spec (l : List Joint) :
    l = (cut l).1 ++ ((cut l).2.flatMap fun part => part.1 :: part.2) ∧
      (∀ j ∈ (cut l).1, j.level = .product) ∧
      ∀ part ∈ (cut l).2, part.1.level = .sum ∧ ∀ j ∈ part.2, j.level = .product := by
  induction l with
  | nil => exact ⟨rfl, List.forall_mem_nil _, List.forall_mem_nil _⟩
  | cons j l ih =>
    obtain ⟨hwhole, hhere, hlater⟩ := ih
    cases hlevel : j.level with
    | sum =>
      have hcut : cut (j :: l) = ([], (j, (cut l).1) :: (cut l).2) := by rw [cut, hlevel]
      rw [hcut]
      refine ⟨?_, List.forall_mem_nil _, List.forall_mem_cons.2 ⟨⟨hlevel, hhere⟩, hlater⟩⟩
      simpa using hwhole
    | product =>
      have hcut : cut (j :: l) = (j :: (cut l).1, (cut l).2) := by rw [cut, hlevel]
      rw [hcut]
      refine ⟨?_, List.forall_mem_cons.2 ⟨hlevel, hhere⟩, hlater⟩
      simpa using hwhole

def productTree (a : Signed) (l : List Joint) : Expr :=
  l.foldl (fun e j => .binary j.op e j.operand.tree) a.tree

theorem isProduct_productTree (a : Signed) (hl : ∀ j ∈ l, j.level = .product) :
    ∃ n, IsProduct n (a.tokens ++ l.flatMap tokens) (productTree a l) := by
  induction l using List.reverseRecOn with
  | nil => exact ⟨a.minuses, by simpa [productTree] using IsProduct.operand a.isOperand⟩
  | append_singleton l j ih =>
    obtain ⟨hl, hj⟩ := List.forall_mem_append.1 hl
    obtain ⟨n, hproduct⟩ := ih hl
    have hlevel : j.op.precedence? = some .product := hj j (List.mem_singleton_self j) ▸ j.joins
    have hjoin : IsProduct (max n j.operand.minuses) (a.tokens ++ l.flatMap tokens ++ j.tokens)
        (.binary j.op (productTree a l) j.operand.tree) := hproduct.join hlevel j.operand.isOperand
    exact ⟨_, by simpa [productTree] using hjoin⟩

def sumTree (e : Expr) (parts : List (Joint × List Joint)) : Expr :=
  parts.foldl (fun e part => .binary part.1.op e (productTree part.1.operand part.2)) e

theorem derives_sumTree {ts : List Token} {e : Expr} {n : Nat} (he : IsProduct n ts e)
    {parts : List (Joint × List Joint)}
    (hparts : ∀ part ∈ parts, part.1.level = .sum ∧ ∀ j ∈ part.2, j.level = .product) :
    Derives (ts ++ (parts.flatMap fun part => part.1 :: part.2).flatMap tokens)
      (sumTree e parts) := by
  induction parts using List.reverseRecOn with
  | nil => exact ⟨n, by simpa [sumTree] using IsSum.product he⟩
  | append_singleton parts part ih =>
    obtain ⟨hparts, hpart⟩ := List.forall_mem_append.1 hparts
    obtain ⟨m, hsum⟩ := ih hparts
    obtain ⟨hsumLevel, hl⟩ := hpart part (List.mem_singleton_self part)
    have hlevel : part.1.op.precedence? = some .sum := hsumLevel ▸ part.1.joins
    obtain ⟨k, hproduct⟩ := isProduct_productTree part.1.operand hl
    have hjoin : IsSum (max m k)
        (ts ++ (parts.flatMap fun part => part.1 :: part.2).flatMap tokens ++
          ⟨.operator part.1.op, part.1.op.symbol⟩ ::
            (part.1.operand.tokens ++ part.2.flatMap tokens))
        (.binary part.1.op (sumTree e parts) (productTree part.1.operand part.2)) :=
      hsum.join hlevel hproduct
    exact ⟨_, by simpa [sumTree, tokens] using hjoin⟩

end Joint

mutual

/-- Without parentheses, what stands open at once is no more than the depth of the tree. -/
theorem IsSum.le_depth {n : Nat} {ts : List Token} {e : Expr} (h : IsSum n ts e)
    (hts : ∀ t ∈ ts, t.kind ≠ .opening) : n ≤ e.depth := by
  match h with
  | .product h => exact h.le_depth hts
  | .join left level right =>
    have hleft := left.le_depth fun t ht => hts t (by simp [ht])
    have hright := right.le_depth fun t ht => hts t (by simp [ht])
    rw [Expr.depth]
    omega

theorem IsProduct.le_depth {n : Nat} {ts : List Token} {e : Expr} (h : IsProduct n ts e)
    (hts : ∀ t ∈ ts, t.kind ≠ .opening) : n ≤ e.depth := by
  match h with
  | .operand h => exact h.le_depth hts
  | .join left level right =>
    have hleft := left.le_depth fun t ht => hts t (by simp [ht])
    have hright := right.le_depth fun t ht => hts t (by simp [ht])
    rw [Expr.depth]
    omega

theorem IsOperand.le_depth {n : Nat} {ts : List Token} {e : Expr} (h : IsOperand n ts e)
    (hts : ∀ t ∈ ts, t.kind ≠ .opening) : n ≤ e.depth := by
  match h with
  | .number => exact Nat.zero_le _
  | .group h => exact absurd rfl (hts _ (List.mem_append_left _ List.mem_cons_self))
  | .call h =>
    exact absurd rfl (hts _ (List.mem_append_left _ (List.mem_cons_of_mem _ List.mem_cons_self)))
  | .emptyCall => exact Nat.zero_le _
  | .variable => exact Nat.zero_le _
  | .minus h =>
    have hoperand := h.le_depth fun t ht => hts t (by simp [ht])
    rw [Expr.depth]
    omega

end

namespace Flat

variable (f : Flat)

def text : List Char := f.first.text ++ f.rest.flatMap Joint.text

def tokens : List Token := f.first.tokens ++ f.rest.flatMap Joint.tokens

/-- Products of operands, joined to a sum. -/
def tree : Expr :=
  Joint.sumTree (Joint.productTree f.first (Joint.cut f.rest).1) (Joint.cut f.rest).2

theorem scan_text : scan f.text = f.tokens := by
  rw [text, f.first.scan_text (Joint.boundary_texts f.rest), Joint.scan_texts, tokens]

theorem text_ne_nil : f.text ≠ [] := fun h => f.first.text_ne_nil (List.append_eq_nil_iff.1 h).1

theorem derives : Derives f.tokens f.tree := by
  obtain ⟨hwhole, hhere, hlater⟩ := Joint.cut_spec f.rest
  obtain ⟨n, hproduct⟩ := Joint.isProduct_productTree f.first hhere
  have hsum := Joint.derives_sumTree hproduct hlater
  rwa [List.append_assoc, ← List.flatMap_append, ← hwhole] at hsum

theorem kind_ne_opening : ∀ t ∈ f.tokens, t.kind ≠ .opening := by
  intro t ht
  rcases List.mem_append.1 ht with ht | ht
  · exact f.first.kind_ne_opening t ht
  · obtain ⟨j, -, ht⟩ := List.mem_flatMap.1 ht
    rcases List.mem_cons.1 ht with rfl | ht
    · exact nofun
    · exact j.operand.kind_ne_opening t ht

theorem nesting_le_depth : nesting f.tokens ≤ f.tree.depth := by
  obtain ⟨n, hsum⟩ := f.derives
  exact hsum.ofTokens.2 ▸ hsum.le_depth f.kind_ne_opening

variable {f} {s : String}

/-- A text without parentheses compiles to the tree of its products, unless too many minus signs
stand before an operand. -/
theorem compile_eq (h : visible s = f.text) : compile (some s) =
    if nesting f.tokens ≤ nestingLimit then .ok f.tree else .error (.malformed .tooDeep) := by
  have hblank : ¬ isBlankText s := fun hblank => f.text_ne_nil (h ▸ isBlankText_iff.1 hblank)
  have hparse : parse s =
      if nesting f.tokens ≤ nestingLimit then .ok f.tree else .error .tooDeep := by
    rw [parse, tokens_eq_scan, h, f.scan_text, Expr.ofTokensWithin_eq,
      Expr.ofTokens_eq_ok_iff.2 f.derives]
  rw [compile, if_neg hblank, hparse]
  split <;> rfl

end Flat
end RobotHand.Formula
