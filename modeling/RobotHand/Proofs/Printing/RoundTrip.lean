import RobotHand.Formula.Position
import RobotHand.Proofs.Printing.Scanning

/-! Compiling undoes printing, and whatever compiles can be printed. -/
namespace RobotHand.Formula

theorem isBlankChar_of_visible {c : Char} (h : 0x21 ≤ c.toNat ∧ c.toNat ≤ 0x7e) :
    isBlankChar c = false := by
  simp only [isBlankChar, Bool.or_eq_false_iff, Bool.and_eq_false_iff, decide_eq_false_iff_not,
    beq_eq_false_iff_ne]
  omega

theorem toNat_of_isDigit {c : Char} (h : c.isDigit) : 0x21 ≤ c.toNat ∧ c.toNat ≤ 0x7e := by
  simp only [Char.isDigit, Bool.and_eq_true, decide_eq_true_eq, ge_iff_le,
    UInt32.le_iff_toNat_le] at h
  obtain ⟨hlow, hhigh⟩ := h
  exact ⟨Nat.le_trans (by decide) hlow, Nat.le_trans hhigh (by decide)⟩

theorem toNat_of_isAlpha {c : Char} (h : c.isAlpha) : 0x21 ≤ c.toNat ∧ c.toNat ≤ 0x7e := by
  simp only [Char.isAlpha, Char.isUpper, Char.isLower, Bool.or_eq_true, Bool.and_eq_true,
    decide_eq_true_eq, ge_iff_le, UInt32.le_iff_toNat_le] at h
  obtain ⟨hlow, hhigh⟩ | ⟨hlow, hhigh⟩ := h
  all_goals exact ⟨Nat.le_trans (by decide) hlow, Nat.le_trans hhigh (by decide)⟩

theorem toNat_of_isNamePart {c : Char} (h : isNamePart c) : 0x21 ≤ c.toNat ∧ c.toNat ≤ 0x7e := by
  simp only [isNamePart, Bool.or_eq_true, beq_iff_eq] at h
  obtain (((h | h) | rfl) | rfl) | rfl := h
  · exact toNat_of_isAlpha h
  · exact toNat_of_isDigit h
  all_goals decide

theorem toNat_of_isAxis {c : Char} (h : isAxis c) : 0x21 ≤ c.toNat ∧ c.toNat ≤ 0x7e := by
  simp only [isAxis, Bool.or_eq_true, beq_iff_eq] at h
  obtain (rfl | rfl) | rfl := h
  all_goals decide

/-- A text without blanks. -/
def Solid (cs : List Char) : Prop := ∀ c ∈ cs, isBlankChar c = false

theorem Solid.cons {c : Char} {cs : List Char} (hc : isBlankChar c = false) (h : Solid cs) :
    Solid (c :: cs) := by
  intro d hd
  rcases List.mem_cons.mp hd with rfl | hd
  · exact hc
  · exact h d hd

theorem Solid.append {cs ds : List Char} (h : Solid cs) (h' : Solid ds) : Solid (cs ++ ds) := by
  intro c hc
  rcases List.mem_append.mp hc with hc | hc
  · exact h c hc
  · exact h' c hc

theorem solid_nil : Solid [] := fun _ hc => nomatch hc

theorem Numeral.solid_text (n : Numeral) : Solid n.text := by
  obtain ⟨c, cs, htext, hc, hcs⟩ := n.text_eq_cons
  rw [htext]
  refine .cons (isBlankChar_of_visible (toNat_of_isDigit hc)) fun d hd => ?_
  have hd := hcs d hd
  simp only [isNumberPart, Bool.or_eq_true, beq_iff_eq] at hd
  obtain hd | rfl := hd
  · exact isBlankChar_of_visible (toNat_of_isDigit hd)
  · decide

theorem IsNameRest.toNat_of_mem {b : Bool} {cs : List Char} (h : IsNameRest b cs) :
    ∀ c ∈ cs, 0x21 ≤ c.toNat ∧ c.toNat ≤ 0x7e := by
  induction h with
  | nil => exact List.forall_mem_nil _
  | part hc _ ih => exact List.forall_mem_cons.2 ⟨toNat_of_isNamePart hc, ih⟩
  | axis ha _ ih =>
    exact List.forall_mem_cons.2 ⟨by decide, List.forall_mem_cons.2 ⟨toNat_of_isAxis ha, ih⟩⟩

/-- Names are written in visible characters of ASCII. -/
theorem Name.toNat_of_mem (x : Name) : ∀ c ∈ x.text, 0x21 ≤ c.toNat ∧ c.toNat ≤ 0x7e :=
  List.forall_mem_cons.2 ⟨toNat_of_isAlpha x.isAlpha_first, x.isNameRest.toNat_of_mem⟩

theorem Name.solid_text (x : Name) : Solid x.text := fun c hc =>
  isBlankChar_of_visible (x.toNat_of_mem c hc)

theorem Operator.solid_symbol {op : Operator} (h : op.precedence?.isSome) :
    Solid op.symbol.toList := by
  cases op with
  | other s => cases h
  | _ => exact .cons (by decide) solid_nil

namespace Script

mutual

theorem solid_text (s : Script) : Solid s.text := by
  match s with
  | .number n => exact n.solid_text
  | .variable x => exact x.solid_text
  | .minus e => exact .cons (by decide) e.solid_text
  | .join op h a b =>
    have hinner := (a.solid_text.append (Operator.solid_symbol h)).append b.solid_text
    exact .cons (by decide) (hinner.append (.cons (by decide) solid_nil))
  | .call f es =>
    have hinner := solid_intercalate es
    exact f.solid_text.append
      (.cons (by decide) (hinner.append (.cons (by decide) solid_nil)))

theorem solid_intercalate (es : List Script) : Solid ([','].intercalate (texts es)) := by
  match es with
  | [] => exact solid_nil
  | [e] => simpa [texts] using e.solid_text
  | e :: e' :: es =>
    have hrest := solid_intercalate (e' :: es)
    have hall := e.solid_text.append (.cons (by decide : isBlankChar ',' = false) hrest)
    simpa [texts] using hall

end

theorem text_ne_nil (s : Script) : s.text ≠ [] := by
  cases s with
  | number n =>
    obtain ⟨c, cs, htext, -⟩ := n.text_eq_cons
    simp [text, htext]
  | _ => simp [text, Name.text]

/-- The text of a script has the tokens of the script. -/
theorem tokens_print (s : Script) : Formula.tokens s.print = s.tokens := by
  have hfilter : (s.print.toList.filter fun c => !isBlankChar c) = s.text := by
    rw [print, String.toList_ofList]
    refine List.filter_eq_self.mpr fun c hc => ?_
    rw [s.solid_text c hc]
    rfl
  have hscan : scan (s.text ++ []) = s.tokens ++ scan [] := s.scan_text fun c hc => nomatch hc
  rw [Formula.tokens, hfilter]
  simpa [scan] using hscan

theorem isBlankText_print (s : Script) : isBlankText s.print = false := by
  obtain ⟨c, cs, htext⟩ := List.exists_cons_of_ne_nil s.text_ne_nil
  have hc := s.solid_text c (by simp [htext])
  simp [isBlankText, print, htext, hc]

/-- Compiling a printed script gives its tree, unless the text is nested too deeply. -/
theorem compile_print (s : Script) :
    compile (some s.print) =
      if s.nesting ≤ nestingLimit then .ok s.tree else .error (.malformed .tooDeep) := by
  obtain ⟨hparse, hnesting⟩ := (IsSum.product (.operand s.isOperand)).ofTokens
  simp only [compile, parse, s.isBlankText_print, s.tokens_print, Expr.ofTokensWithin_eq, hparse,
    hnesting, Bool.false_eq_true, if_false]
  split <;> rfl

end Script

/-- A token as scanning makes it: its number or its name can be written. -/
def Spelled (t : Token) : Prop :=
  match t.kind with
  | .number (some v) => ∃ n : Numeral, n.value = v
  | .function x | .variable x => ∃ y : Name, y.string = x
  | _ => True

theorem exists_numeral {lexeme : List Char} {v : Float} (hne : lexeme.takeWhile Char.isDigit ≠ [])
    (h : numberValue? lexeme = some v) : ∃ n : Numeral, n.value = v := by
  have hwhole : ∀ c ∈ lexeme.takeWhile Char.isDigit, c.isDigit := fun c hc =>
    List.all_eq_true.mp List.all_takeWhile c hc
  unfold numberValue? at h
  dsimp only at h
  split at h
  · exact ⟨⟨_, none, hne, hwhole, by simp⟩, by simpa [Numeral.value] using h⟩
  · next c fraction _ =>
    split at h
    · next hall =>
      exact ⟨⟨_, some fraction, hne, hwhole, List.all_eq_true.mp hall⟩,
        by simpa [Numeral.value] using h⟩
    · cases h

theorem isNameRest_nameTail (b : Bool) (cs : List Char) : IsNameRest b (nameTail b cs).1 := by
  fun_induction nameTail b cs with
  | case1 => exact .nil
  | case2 a r ha name rest heq ih =>
    rw [heq] at ih
    exact .axis ha ih
  | case3 => exact .nil
  | case4 b c r _ hc name rest heq ih =>
    rw [heq] at ih
    exact .part hc ih
  | case5 => exact .nil

theorem spelled_mark {c : Char} {kind : Token.Kind} (h : mark? c = some kind) (lexeme : String) :
    Spelled ⟨kind, lexeme⟩ := by
  unfold mark? at h
  split at h <;> cases h <;> trivial

theorem spelled_scan (cs : List Char) : ∀ t ∈ scan cs, Spelled t := by
  fun_induction scan cs with
  | case1 => simp
  | case2 c r hc lexeme ih =>
    intro t ht
    rcases List.mem_cons.mp ht with rfl | ht
    · cases hv : numberValue? lexeme with
      | none => trivial
      | some v =>
        have hne : lexeme.takeWhile Char.isDigit ≠ [] := by simp [lexeme, hc]
        simpa [Spelled, hv] using exists_numeral hne hv
    · exact ih t ht
  | case3 c r _ hc name ih =>
    intro t ht
    rcases List.mem_cons.mp ht with rfl | ht
    · have hname : ∃ x : Name, x.string = name :=
        ⟨⟨c, _, hc, isNameRest_nameTail false r⟩, rfl⟩
      by_cases hopening : (nameTail false r).2.head? = some '('
      · simpa [Spelled, nameKind, hopening] using hname
      · simpa [Spelled, nameKind, hopening] using hname
    · exact ih t ht
  | case4 c r _ _ kind hkind ih =>
    intro t ht
    rcases List.mem_cons.mp ht with rfl | ht
    · exact spelled_mark hkind _
    · exact ih t ht
  | case5 c r _ _ _ ih => exact ih

mutual

/-- Every derivation from spelled tokens is the tree of a script. -/
theorem IsSum.exists_script {n : Nat} {ts : List Token} {e : Expr} (h : IsSum n ts e)
    (hts : ∀ t ∈ ts, Spelled t) : ∃ s : Script, s.tree = e := by
  match h with
  | .product h => exact h.exists_script hts
  | .join left level right =>
    obtain ⟨a, rfl⟩ := left.exists_script fun t ht => hts t (by simp [ht])
    obtain ⟨b, rfl⟩ := right.exists_script fun t ht => hts t (by simp [ht])
    exact ⟨.join _ (Option.isSome_of_eq_some level) a b, by rw [Script.tree]⟩

theorem IsProduct.exists_script {n : Nat} {ts : List Token} {e : Expr} (h : IsProduct n ts e)
    (hts : ∀ t ∈ ts, Spelled t) : ∃ s : Script, s.tree = e := by
  match h with
  | .operand h => exact h.exists_script hts
  | .join left level right =>
    obtain ⟨a, rfl⟩ := left.exists_script fun t ht => hts t (by simp [ht])
    obtain ⟨b, rfl⟩ := right.exists_script fun t ht => hts t (by simp [ht])
    exact ⟨.join _ (Option.isSome_of_eq_some level) a b, by rw [Script.tree]⟩

theorem IsOperand.exists_script {n : Nat} {ts : List Token} {e : Expr} (h : IsOperand n ts e)
    (hts : ∀ t ∈ ts, Spelled t) : ∃ s : Script, s.tree = e := by
  match h with
  | .number =>
    obtain ⟨n, rfl⟩ := hts _ List.mem_cons_self
    exact ⟨.number n, by rw [Script.tree]⟩
  | .group h => exact h.exists_script fun t ht => hts t (by simp [ht])
  | .call h =>
    obtain ⟨f, rfl⟩ := hts _ List.mem_cons_self
    obtain ⟨es, rfl⟩ := h.exists_scripts fun t ht => hts t (by simp [ht])
    exact ⟨.call f es, by rw [Script.tree]⟩
  | .emptyCall =>
    obtain ⟨f, rfl⟩ := hts _ List.mem_cons_self
    exact ⟨.call f [], by rw [Script.tree, Script.trees]⟩
  | .variable =>
    obtain ⟨x, rfl⟩ := hts _ List.mem_cons_self
    exact ⟨.variable x, by rw [Script.tree]⟩
  | .minus h =>
    obtain ⟨s, rfl⟩ := h.exists_script fun t ht => hts t (by simp [ht])
    exact ⟨.minus s, by rw [Script.tree]⟩

theorem IsArguments.exists_scripts {n : Nat} {ts : List Token} {es : List Expr}
    (h : IsArguments n ts es) (hts : ∀ t ∈ ts, Spelled t) :
    ∃ ss : List Script, Script.trees ss = es := by
  match h with
  | .first h =>
    obtain ⟨s, rfl⟩ := h.exists_script hts
    exact ⟨[s], by rw [Script.trees, Script.trees]⟩
  | .next front last =>
    obtain ⟨ss, rfl⟩ := front.exists_scripts fun t ht => hts t (by simp [ht])
    obtain ⟨s, rfl⟩ := last.exists_script fun t ht => hts t (by simp [ht])
    exact ⟨ss ++ [s], Script.trees_append ss s⟩

end

theorem ofTokensWithin_of_compile {formula : Option String} {e : Expr}
    (h : compile formula = .ok e) :
    ∃ text, Expr.ofTokensWithin nestingLimit (tokens text) = .ok e := by
  cases formula with
  | none => cases h
  | some text =>
    unfold compile at h
    dsimp only at h
    split at h
    · cases h
    · cases hparse : parse text with
      | error cause => rw [hparse] at h; cases h
      | ok e' =>
        rw [hparse] at h
        cases h
        exact ⟨text, hparse⟩

/-- Whatever compiles is the tree of a script. -/
theorem exists_script_of_compile {formula : Option String} {e : Expr}
    (h : compile formula = .ok e) : ∃ s : Script, s.tree = e := by
  obtain ⟨text, hparse⟩ := ofTokensWithin_of_compile h
  obtain ⟨-, n, hsum⟩ := Expr.ofTokensWithin_eq_ok_iff.mp hparse
  exact hsum.exists_script (spelled_scan _)

/-- A printed script compiles to its tree exactly where its text is not nested too deeply. Every
tree that compiles is that of a script, so it can be printed and compiled again. -/
theorem compile_undoes_print :
    (∀ s : Script, compile (some s.print) = .ok s.tree ↔ s.nesting ≤ nestingLimit) ∧
      ∀ formula e, compile formula = .ok e →
        ∃ s : Script, s.tree = e ∧
          (s.nesting ≤ nestingLimit → compile (some s.print) = .ok e) := by
  have hprint (s : Script) : compile (some s.print) = .ok s.tree ↔ s.nesting ≤ nestingLimit := by
    rw [s.compile_print]
    split
    · next h => simp [h]
    · next h => simp [h]
  refine ⟨hprint, fun formula e h => ?_⟩
  obtain ⟨s, rfl⟩ := exists_script_of_compile h
  exact ⟨s, rfl, (hprint s).mpr⟩

end RobotHand.Formula
