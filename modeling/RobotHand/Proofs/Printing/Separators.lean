import RobotHand.Proofs.Printing.Segmentation

/-! Scanning is local. A character that belongs to no number and no name separates the tokens on its
left from those on its right: what stands on one side does not matter on the other. -/
namespace RobotHand.Formula

/-- A character that continues no number and no name. -/
def isSeparator (c : Char) : Bool := !isNamePart c && c != '.'

/-- A text that goes on with a separator, or not at all. -/
def Apart (rest : List Char) : Prop := ∀ c ∈ rest.head?, isSeparator c

variable {c : Char} {rest : List Char}

theorem isSeparator_iff : isSeparator c ↔ ¬ c.isAlphanum ∧ c ∉ ['_', '[', ']', '.'] := by
  have hpart : isNamePart c = false ↔ ¬ c.isAlphanum ∧ c ∉ ['_', '[', ']'] := by
    rw [← Bool.not_eq_true, isNamePart_iff, not_or]
  rw [isSeparator, Bool.and_eq_true, Bool.not_eq_true', hpart, bne_iff_ne]
  simp only [List.mem_cons, List.not_mem_nil, or_false, not_or, and_assoc]

/-- Separators are no digits and no letters, and continue neither numbers nor names. -/
theorem isSeparator_classes (h : isSeparator c) :
    (c.isDigit = false ∧ c.isAlpha = false) ∧ isNumberPart c = false ∧ isNamePart c = false ∧
      isAxis c = false := by
  simp only [isSeparator, isNamePart, Bool.and_eq_true, Bool.not_eq_true', Bool.or_eq_false_iff,
    bne_iff_ne] at h
  obtain ⟨⟨⟨⟨⟨halpha, hdigit⟩, hline⟩, hopen⟩, hclose⟩, hpoint⟩ := h
  have hpart : isNamePart c = false := by simp [isNamePart, halpha, hdigit, hline, hopen, hclose]
  have haxis : isAxis c = false := by
    refine Bool.eq_false_iff.2 fun h => ?_
    rcases List.mem_cons.1 (isAxis_iff.1 h) with rfl | h
    · cases halpha
    · rcases List.mem_pair.1 h with rfl | rfl <;> cases halpha
  exact ⟨⟨hdigit, halpha⟩, by simp [isNumberPart, hdigit, hpoint], hpart, haxis⟩

theorem Apart.cons (h : isSeparator c) (rest : List Char) : Apart (c :: rest) := by
  intro d hd
  cases hd
  exact h

theorem apart_nil : Apart [] := by
  intro d hd
  cases hd

/-- A name ends where it would if nothing followed. -/
theorem nameTail_append_of_apart (b : Bool) (cs : List Char) (h : Apart rest) :
    nameTail b (cs ++ rest) = ((nameTail b cs).1, (nameTail b cs).2 ++ rest) := by
  have hstop : ∀ c ∈ rest.head?, isNamePart c = false ∧ isAxis c = false := fun c hc =>
    (isSeparator_classes (h c hc)).2.2
  fun_induction nameTail b cs with
  | case1 b =>
    cases rest with
    | nil => rfl
    | cons c rest =>
      refine nameTail_stop (hstop c rfl).1 ?_
      rintro - rfl
      cases h '.' rfl
  | case2 a r ha name rest' heq ih =>
    rw [heq] at ih
    rw [List.cons_append, List.cons_append, nameTail, if_pos ha, ih]
  | case3 a r ha =>
    refine nameTail_stop rfl fun _ _ d hd => ?_
    cases hd
    exact Bool.eq_false_iff.2 ha
  | case4 b c r _ hc name rest' heq ih =>
    rw [heq] at ih
    rw [List.cons_append, nameTail_part hc, ih]
  | case5 b c r hpoint hc =>
    refine nameTail_stop (Bool.eq_false_iff.2 hc) fun hb heq a ha => ?_
    cases r with
    | nil => exact (hstop a ha).2
    | cons a' r => exact (hpoint a' r hb heq rfl).elim

theorem scan_nil : scan [] = [] := by rw [scan]

theorem scan_idle (h : isIdle c) (rest : List Char) : scan (c :: rest) = scan rest := by
  obtain ⟨⟨hdigit, halpha⟩, hmark⟩ := isIdle_iff.1 h
  simp [scan, hdigit, halpha, hmark]

theorem scan_cons_of_separator (h : isSeparator c) (rest : List Char) :
    scan (c :: rest) = scan [c] ++ scan rest := by
  obtain ⟨⟨hdigit, halpha⟩, -⟩ := isSeparator_classes h
  cases hmark : mark? c with
  | some kind =>
    rw [scan_mark hmark, scan_mark hmark, scan_nil, List.singleton_append]
  | none =>
    have hidle : isIdle c := isIdle_iff.2 ⟨⟨hdigit, halpha⟩, hmark⟩
    rw [scan_idle hidle, scan_idle hidle, scan_nil, List.nil_append]

theorem nameKind_append {opening : Bool} (h : rest.head? = some '(' ↔ opening) (name : String)
    (cs : List Char) :
    nameKind name (cs ++ rest) = nameKind name (cs ++ if opening then ['('] else []) := by
  cases cs with
  | nil => cases opening <;> simp [nameKind, h]
  | cons c cs => rfl

/-- The tokens before a separator do not depend on what follows it. Their lexemes do not even depend
on the separator, which only decides whether a name right before it is called. -/
theorem exists_scan_append (opening : Bool) (cs : List Char) :
    ∃ ts, ts.map Token.lexeme = (scan cs).map Token.lexeme ∧
      ∀ rest, Apart rest → (rest.head? = some '(' ↔ opening) →
        scan (cs ++ rest) = ts ++ scan rest := by
  fun_induction scan cs with
  | case1 => exact ⟨[], rfl, fun rest _ _ => rfl⟩
  | case2 c r hc lexeme ih =>
    obtain ⟨ts, hlexemes, hts⟩ := ih
    refine ⟨⟨.number (numberValue? lexeme), String.ofList lexeme⟩ :: ts, by simp [hlexemes], ?_⟩
    intro rest hrest hopening
    obtain ⟨htake, hdrop⟩ := takeWhile_append_of_stop r (p := isNumberPart) fun d hd =>
      (isSeparator_classes (hrest d hd)).2.1
    rw [List.cons_append, scan, if_pos hc, htake, hdrop, hts rest hrest hopening]
    rfl
  | case3 c r hdigit hc name ih =>
    obtain ⟨ts, hlexemes, hts⟩ := ih
    -- A name at the very end is called or not, as the flag tells; any other is followed already.
    refine ⟨⟨nameKind name ((nameTail false r).2 ++ if opening then ['('] else []), name⟩ :: ts,
      by simp [hlexemes], fun rest hrest hopening => ?_⟩
    rw [← nameKind_append hopening, List.cons_append, scan, if_neg hdigit, if_pos hc,
      nameTail_append_of_apart false r hrest]
    exact congrArg _ (hts rest hrest hopening)
  | case4 c r hdigit halpha kind hkind ih =>
    obtain ⟨ts, hlexemes, hts⟩ := ih
    refine ⟨⟨kind, c.toString⟩ :: ts, by simp [hlexemes], fun rest hrest hopening => ?_⟩
    rw [List.cons_append, scan_mark hkind, hts rest hrest hopening]
    rfl
  | case5 c r hdigit halpha hmark ih =>
    obtain ⟨ts, hlexemes, hts⟩ := ih
    have hidle : isIdle c := isIdle_iff.2 ⟨⟨by simpa using hdigit, by simpa using halpha⟩, hmark⟩
    refine ⟨ts, hlexemes, fun rest hrest hopening => ?_⟩
    rw [List.cons_append, scan_idle hidle, hts rest hrest hopening]

def visible (s : String) : List Char := s.toList.filter fun c => !isBlankChar c

theorem visible_append (s s' : String) : visible (s ++ s') = visible s ++ visible s' := by
  rw [visible, String.toList_append, List.filter_append]
  rfl

theorem visible_toString (h : isBlankChar c = false) : visible c.toString = [c] := by
  rw [visible, toList_toString, List.filter_singleton, h]
  rfl

theorem tokens_eq_scan (s : String) : tokens s = scan (visible s) := rfl

/-- At a separator a formula splits into two that are scanned apart. A separator that is no mark
adds nothing to the tokens before it, and a mark adds its own token; only an opening parenthesis has
an influence on what stands before it, as it makes a function of the name right before it. -/
theorem tokens_split_at_separators (u v : String) (hblank : isBlankChar c = false)
    (hword : ¬ c.isAlphanum) (hmarks : c ∉ ['_', '[', ']', '.']) :
    tokens (u ++ c.toString ++ v) = tokens (u ++ c.toString) ++ tokens v ∧
      (c ∉ ['+', '-', '*', '/', '(', ')', ','] → tokens (u ++ c.toString) = tokens u) ∧
      ∀ kind, mark? c = some kind →
        ∃ ts, tokens (u ++ c.toString) = ts ++ [⟨kind, c.toString⟩] ∧
          ts.map Token.lexeme = (tokens u).map Token.lexeme ∧ (c ≠ '(' → ts = tokens u) := by
  have hseparator : isSeparator c := isSeparator_iff.2 ⟨hword, hmarks⟩
  obtain ⟨ts, hlexemes, hts⟩ := exists_scan_append (decide (c = '(')) (visible u)
  have happend : ∀ cs, scan (visible u ++ c :: cs) = ts ++ scan [c] ++ scan cs := fun cs => by
    rw [hts (c :: cs) (.cons hseparator cs) (by simp), scan_cons_of_separator hseparator,
      List.append_assoc]
  have hsplit : tokens (u ++ c.toString ++ v) = ts ++ scan [c] ++ tokens v := by
    simp only [tokens_eq_scan, visible_append, visible_toString hblank, List.append_assoc,
      List.singleton_append]
    rw [happend, List.append_assoc]
  have hleft : tokens (u ++ c.toString) = ts ++ scan [c] := by
    rw [tokens_eq_scan, visible_append, visible_toString hblank, happend, scan_nil, List.append_nil]
  have hself : c ≠ '(' → ts = tokens u := fun hne => by
    have hend := hts [] apart_nil (by simp [hne])
    rw [List.append_nil, scan_nil, List.append_nil] at hend
    exact hend.symm
  refine ⟨by rw [hsplit, hleft], fun hstray => ?_, fun kind hkind => ⟨ts, ?_, hlexemes, hself⟩⟩
  · have hidle : isIdle c := by simpa [isIdle, hword] using hstray
    have hne : c ≠ '(' := by
      rintro rfl
      simp at hstray
    rw [hleft, scan_idle hidle, scan_nil, List.append_nil, hself hne]
  · rw [hleft, scan_mark hkind, scan_nil]

/-- A stray character keeps a coordinate letter away from the name before it. -/
theorem tokens_split_at_separators_stray :
    isBlankChar '#' = false ∧ ¬ '#'.isAlphanum ∧ '#' ∉ ['_', '[', ']', '.'] ∧
      '#' ∉ ['+', '-', '*', '/', '(', ')', ','] ∧
      tokens ("L[0]." ++ '#'.toString ++ "x") = tokens ("L[0]." ++ '#'.toString) ++ tokens "x" ∧
      tokens ("L[0]." ++ '#'.toString) = tokens "L[0]." := by
  have hblank : isBlankChar '#' = false := by decide
  have hword : ¬ '#'.isAlphanum := by decide
  have hmarks : '#' ∉ ['_', '[', ']', '.'] := by decide
  have hidle : '#' ∉ ['+', '-', '*', '/', '(', ')', ','] := by decide
  obtain ⟨hsplit, hstray, -⟩ := tokens_split_at_separators "L[0]." "x" hblank hword hmarks
  exact ⟨hblank, hword, hmarks, hidle, hsplit, hstray hidle⟩

end RobotHand.Formula
