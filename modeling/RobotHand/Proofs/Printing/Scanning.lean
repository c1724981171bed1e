import RobotHand.Proofs.Printing.Script

/-! The pieces of a script's text neither merge nor split: scanning the text gives the tokens. -/
namespace RobotHand.Formula

/-- What may follow an operand: the end, or a mark that opens nothing. -/
def Boundary (rest : List Char) : Prop := ∀ c ∈ rest.head?, (mark? c).isSome ∧ c ≠ '('

theorem boundary_cons {c : Char} (rest : List Char) (h : (mark? c).isSome) (hc : c ≠ '(') :
    Boundary (c :: rest) := by
  intro d hd
  cases hd
  exact ⟨h, hc⟩

/-- A mark is no digit or letter, and continues no number or name. -/
theorem mark_classes {c : Char} (h : (mark? c).isSome) :
    (c.isDigit = false ∧ c.isAlpha = false) ∧ isNumberPart c = false ∧ isNamePart c = false := by
  unfold mark? at h
  split at h
  case h_8 => cases h
  all_goals decide

theorem scan_mark {c : Char} {kind : Token.Kind} (h : mark? c = some kind) (rest : List Char) :
    scan (c :: rest) = ⟨kind, c.toString⟩ :: scan rest := by
  obtain ⟨⟨hdigit, halpha⟩, -⟩ := mark_classes (Option.isSome_of_eq_some h)
  simp [scan, hdigit, halpha, h]

/-- What stops at the rest of a text stops where it would if nothing followed. -/
theorem takeWhile_append_of_stop {p : Char → Bool} (cs : List Char) {rest : List Char}
    (h : ∀ c ∈ rest.head?, p c = false) :
    (cs ++ rest).takeWhile p = cs.takeWhile p ∧
      (cs ++ rest).dropWhile p = cs.dropWhile p ++ rest := by
  induction cs with
  | nil =>
    cases rest with
    | nil => exact ⟨rfl, rfl⟩
    | cons c rest =>
      have hc : p c = false := h c rfl
      simp [hc]
  | cons c cs ih =>
    obtain ⟨htake, hdrop⟩ := ih
    by_cases hc : p c
    · simp [hc, htake, hdrop]
    · simp [hc]

theorem takeWhile_append_of_boundary (rest : List Char) {cs : List Char} {p : Char → Bool}
    (hcs : ∀ c ∈ cs, p c) (hrest : ∀ c ∈ rest.head?, p c = false) :
    (cs ++ rest).takeWhile p = cs ∧ (cs ++ rest).dropWhile p = rest := by
  obtain ⟨htake, hdrop⟩ := takeWhile_append_of_stop cs hrest
  rw [htake, hdrop, List.takeWhile_eq_self_iff.2 hcs, List.dropWhile_eq_nil_iff.2 hcs]
  exact ⟨rfl, rfl⟩

namespace Numeral

theorem numberValue?_text (n : Numeral) : numberValue? n.text = some n.value := by
  obtain ⟨whole, fraction, hne, hwhole, hfraction⟩ := n
  cases fraction with
  | none =>
    have hsplit := takeWhile_append_of_boundary [] hwhole (by simp)
    rw [List.append_nil] at hsplit
    simp [numberValue?, text, value, hsplit.1, hsplit.2]
  | some ds =>
    have hds : ds.all Char.isDigit := List.all_eq_true.mpr hfraction
    have hsplit := takeWhile_append_of_boundary ('.' :: ds) hwhole (by simp)
    simp [numberValue?, text, value, hsplit.1, hsplit.2, hds]

/-- A numeral begins with a digit and goes on with digits and points. -/
theorem text_eq_cons (n : Numeral) :
    ∃ c cs, n.text = c :: cs ∧ c.isDigit ∧ ∀ d ∈ cs, isNumberPart d := by
  obtain ⟨whole, fraction, hne, hwhole, hfraction⟩ := n
  obtain ⟨c, cs, rfl⟩ := List.exists_cons_of_ne_nil hne
  have hc : c.isDigit := hwhole c (by simp)
  have hcs : ∀ d ∈ cs, isNumberPart d := fun d hd => by
    simp [isNumberPart, hwhole d (by simp [hd])]
  cases fraction with
  | none => exact ⟨c, cs, rfl, hc, hcs⟩
  | some ds =>
    refine ⟨c, cs ++ '.' :: ds, rfl, hc, ?_⟩
    intro d hd
    rcases List.mem_append.mp hd with hd | hd
    · exact hcs d hd
    · rcases List.mem_cons.mp hd with rfl | hd
      · rfl
      · simp [isNumberPart, hfraction d hd]

theorem scan_text (n : Numeral) {rest : List Char} (h : Boundary rest) :
    scan (n.text ++ rest) =
      ⟨.number (some n.value), String.ofList n.text⟩ :: scan rest := by
  obtain ⟨c, cs, htext, hc, hcs⟩ := n.text_eq_cons
  have hvalue := n.numberValue?_text
  obtain ⟨htake, hdrop⟩ := takeWhile_append_of_boundary rest hcs fun d hd =>
    (mark_classes (h d hd).1).2.1
  rw [htext] at hvalue ⊢
  rw [List.cons_append, scan, if_pos hc, htake, hdrop]
  simp only [hvalue]

end Numeral

theorem nameTail_part {b : Bool} {c : Char} {cs : List Char} (h : isNamePart c) :
    nameTail b (c :: cs) = (c :: (nameTail (c == ']') cs).1, (nameTail (c == ']') cs).2) := by
  rw [nameTail, if_pos h]
  rintro a r - rfl
  cases h

/-- A name ends before what does not continue it. -/
theorem nameTail_stop {b : Bool} {c : Char} {cs : List Char} (h : isNamePart c = false)
    (haxis : b → c = '.' → ∀ a ∈ cs.head?, isAxis a = false) :
    nameTail b (c :: cs) = ([], c :: cs) := by
  unfold nameTail
  split
  · next heq => cases heq
  · next a r heq =>
    cases heq
    rw [if_neg (Bool.not_eq_true _ ▸ haxis rfl rfl a rfl)]
  · next heq =>
    cases heq
    rw [if_neg (Bool.not_eq_true _ ▸ h)]

theorem nameTail_append_of_mark {b : Bool} {cs rest : List Char} (hcs : IsNameRest b cs)
    (h : ∀ c ∈ rest.head?, (mark? c).isSome) : nameTail b (cs ++ rest) = (cs, rest) := by
  induction hcs with
  | nil =>
    cases rest with
    | nil => simp [nameTail]
    | cons c rest =>
      have hmark := h c rfl
      refine nameTail_stop (mark_classes hmark).2.2 ?_
      rintro - rfl
      cases hmark
  | part hc _ ih => rw [List.cons_append, nameTail_part hc, ih]
  | axis ha _ ih => simp [nameTail, ha, ih]

theorem isDigit_of_isAlpha {c : Char} (h : c.isAlpha) : c.isDigit = false := by
  simp only [Char.isAlpha, Char.isUpper, Char.isLower, Bool.or_eq_true, Bool.and_eq_true,
    decide_eq_true_eq] at h
  simp only [Char.isDigit, Bool.and_eq_false_iff, decide_eq_false_iff_not]
  rcases h with ⟨h, -⟩ | ⟨h, -⟩
  all_goals
    right
    intro hle
    exact absurd (UInt32.le_trans h hle) (by decide)

namespace Name

theorem scan_text (x : Name) {rest : List Char} (h : ∀ c ∈ rest.head?, (mark? c).isSome) :
    scan (x.text ++ rest) = ⟨nameKind x.string rest, x.string⟩ :: scan rest := by
  have hdigit := isDigit_of_isAlpha x.isAlpha_first
  have htail := nameTail_append_of_mark x.isNameRest h
  rw [text, List.cons_append, scan]
  simp [hdigit, x.isAlpha_first, htail, string, text]

end Name

/-- An operator is written as a single mark. -/
theorem Operator.symbol_eq {op : Operator} (h : op.precedence?.isSome) :
    ∃ c, mark? c = some (.operator op) ∧ op.symbol = c.toString ∧ c ≠ '(' := by
  cases op with
  | add => exact ⟨'+', rfl, rfl, by decide⟩
  | subtract => exact ⟨'-', rfl, rfl, by decide⟩
  | multiply => exact ⟨'*', rfl, rfl, by decide⟩
  | divide => exact ⟨'/', rfl, rfl, by decide⟩
  | other s => cases h

namespace Script

mutual

/-- Scanning the text of a script gives its tokens, whatever follows at a boundary. -/
theorem scan_text (s : Script) {rest : List Char} (h : Boundary rest) :
    scan (s.text ++ rest) = s.tokens ++ scan rest := by
  match s with
  | .number n =>
    rw [text, tokens]
    exact n.scan_text h
  | .variable x =>
    have hkind : nameKind x.string rest = .variable x.string := by
      have hhead : rest.head? ≠ some '(' := fun hc => (h '(' hc).2 rfl
      simp [nameKind, hhead]
    rw [text, tokens, x.scan_text fun c hc => (h c hc).1, hkind]
    rfl
  | .minus e =>
    rw [text, tokens, List.cons_append, scan_mark rfl, e.scan_text h]
    rfl
  | .join op hop a b =>
    obtain ⟨c, hmark, hsymbol, hc⟩ := Operator.symbol_eq hop
    have hafter : Boundary (')' :: rest) := boundary_cons rest rfl (by decide)
    have hbetween : Boundary (c :: (b.text ++ ')' :: rest)) :=
      boundary_cons _ (Option.isSome_of_eq_some hmark) hc
    have hshape : (join op hop a b).text ++ rest =
        '(' :: (a.text ++ c :: (b.text ++ ')' :: rest)) := by
      simp [text, hsymbol]
    rw [hshape, scan_mark rfl, a.scan_text hbetween, scan_mark hmark, b.scan_text hafter,
      scan_mark rfl, tokens, hsymbol]
    simp
  | .call f [] =>
    have hkind (rest : List Char) : nameKind f.string ('(' :: rest) = .function f.string := rfl
    have hshape : (call f []).text ++ rest = f.text ++ '(' :: ')' :: rest := by
      simp [text, texts]
    rw [hshape, f.scan_text (by simp [mark?]), scan_mark rfl, scan_mark rfl, hkind, tokens,
      tokenLists]
    rfl
  | .call f (e :: es) =>
    have hkind (rest : List Char) : nameKind f.string ('(' :: rest) = .function f.string := rfl
    have hafter : Boundary (')' :: rest) := boundary_cons rest rfl (by decide)
    have hshape : (call f (e :: es)).text ++ rest =
        f.text ++ '(' :: ([','].intercalate (texts (e :: es)) ++ ')' :: rest) := by
      simp [text]
    rw [hshape, f.scan_text (by simp [mark?]), scan_mark rfl,
      scan_texts (e :: es) (List.cons_ne_nil e es) hafter, scan_mark rfl, hkind, tokens]
    simp

theorem scan_texts (es : List Script) (h : es ≠ []) {rest : List Char} (hrest : Boundary rest) :
    scan ([','].intercalate (texts es) ++ rest) =
      [⟨.comma, ","⟩].intercalate (tokenLists es) ++ scan rest := by
  match es with
  | [e] => simpa [texts, tokenLists] using e.scan_text hrest
  | e :: e' :: es =>
    have hbetween : Boundary (',' :: ([','].intercalate (texts (e' :: es)) ++ rest)) :=
      boundary_cons _ rfl (by decide)
    have hshape : [','].intercalate (texts (e :: e' :: es)) ++ rest =
        e.text ++ ',' :: ([','].intercalate (texts (e' :: es)) ++ rest) := by
      simp [texts]
    rw [hshape, e.scan_text hbetween, scan_mark rfl,
      scan_texts (e' :: es) (List.cons_ne_nil e' es) hrest]
    simp [tokenLists]

end

end Script
end RobotHand.Formula
