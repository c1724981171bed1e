import RobotHand.Proofs.Printing.RoundTrip

/-! Scanning cuts a text into lexemes, each as long as it can be, and skips nothing that has a
meaning. There is no other way to cut it so. -/
namespace RobotHand.Formula

/-- A text does not continue the name that stands before it, given without its first letter. -/
def EndsName (name rest : List Char) : Prop :=
  ∀ more rest', rest = more ++ rest' → IsNameRest false (name ++ more) → more = []

/-- A text does not continue the number that stands before it. -/
def EndsNumber (rest : List Char) : Prop := ∀ c ∈ rest.head?, ¬ (c.isDigit ∨ c = '.')

/-- How a token is spelled in front of the rest of a text. -/
inductive Fits : Token → List Char → Prop
  | operator (op) {rest} (h : op.precedence?.isSome) : Fits ⟨.operator op, op.symbol⟩ rest
  | opening {rest} : Fits ⟨.opening, "("⟩ rest
  | closing {rest} : Fits ⟨.closing, ")"⟩ rest
  | comma {rest} : Fits ⟨.comma, ","⟩ rest
  | number (value c cs) {rest} (hc : c.isDigit) (hcs : ∀ d ∈ cs, d.isDigit ∨ d = '.')
      (hend : EndsNumber rest) (hvalue : value = none ↔ 2 ≤ (c :: cs).count '.') :
      Fits ⟨.number value, String.ofList (c :: cs)⟩ rest
  | call (x : Name) {rest} (hend : EndsName x.rest rest) (hopening : rest.head? = some '(') :
      Fits ⟨.function x.string, x.string⟩ rest
  | name (x : Name) {rest} (hend : EndsName x.rest rest) (hopening : rest.head? ≠ some '(') :
      Fits ⟨.variable x.string, x.string⟩ rest

/-- A character that is no letter, digit, operator, parenthesis or comma. -/
def isIdle (c : Char) : Bool := !c.isAlphanum && !(['+', '-', '*', '/', '(', ')', ','].contains c)

/-- A text is cut into tokens, each with the characters that are skipped before it, and the
characters that are skipped at the end. -/
inductive Segments : List Char → List (List Char × Token) → List Char → Prop
  | last {cs} (h : ∀ c ∈ cs, isIdle c) : Segments cs [] cs
  | piece {skipped t rest pieces last} (hskipped : ∀ c ∈ skipped, isIdle c) (ht : Fits t rest)
      (h : Segments rest pieces last) :
      Segments (skipped ++ (t.lexeme.toList ++ rest)) ((skipped, t) :: pieces) last

variable {c : Char} {cs rest rest' last last' : List Char} {b : Bool} {t t' : Token}
  {pieces pieces' : List (List Char × Token)}

/-- Whatever continues a name is taken into it. -/
theorem IsNameRest.le_nameTail (h : IsNameRest b cs) (rest : List Char) :
    cs <+: (nameTail b (cs ++ rest)).1 := by
  induction h with
  | nil => exact List.nil_prefix
  | @part b c r hc _ ih =>
    rw [List.cons_append, nameTail_part hc]
    exact (List.prefix_cons_inj c).2 ih
  | @axis a r ha _ ih =>
    rw [List.cons_append, List.cons_append, nameTail, if_pos ha]
    exact (List.prefix_cons_inj '.').2 ((List.prefix_cons_inj a).2 ih)

theorem endsName_nameTail (cs : List Char) :
    EndsName (nameTail false cs).1 (nameTail false cs).2 := by
  intro more rest' hrest hname
  have hcs : cs = (nameTail false cs).1 ++ more ++ rest' := by
    rw [List.append_assoc, ← hrest, nameTail_append]
  have hle := (hname.le_nameTail rest').length_le
  rw [← hcs, List.length_append] at hle
  exact List.eq_nil_of_length_eq_zero (by omega)

theorem EndsName.nameTail_eq (h : EndsName cs rest) (hcs : IsNameRest false cs) :
    nameTail false (cs ++ rest) = (cs, rest) := by
  obtain ⟨more, hmore⟩ := hcs.le_nameTail rest
  have hname := isNameRest_nameTail false (cs ++ rest)
  have hsplit := nameTail_append false (cs ++ rest)
  rw [← hmore] at hname
  rw [← hmore, List.append_assoc, List.append_cancel_left_eq] at hsplit
  obtain rfl := h more _ hsplit.symm hname
  exact Prod.ext (by rw [← hmore, List.append_nil]) hsplit

theorem toList_toString (c : Char) : c.toString.toList = [c] := String.toList_singleton c

theorem isNumberPart_iff : isNumberPart c ↔ c.isDigit ∨ c = '.' := by
  simp [isNumberPart]

theorem fits_mark {kind : Token.Kind} (h : mark? c = some kind) (rest : List Char) :
    Fits ⟨kind, c.toString⟩ rest := by
  unfold mark? at h
  split at h <;> cases h
  · exact .operator .add rfl
  · exact .operator .subtract rfl
  · exact .operator .multiply rfl
  · exact .operator .divide rfl
  · exact .opening
  · exact .closing
  · exact .comma

theorem isIdle_iff : isIdle c ↔ (c.isDigit = false ∧ c.isAlpha = false) ∧ mark? c = none := by
  have hmark : ['+', '-', '*', '/', '(', ')', ','].contains c = false ↔ mark? c = none := by
    unfold mark?
    split <;> simp_all
  rw [isIdle, Bool.and_eq_true, Bool.not_eq_true', Bool.not_eq_true', hmark, Char.isAlphanum,
    Bool.or_eq_false_iff, and_comm (a := c.isAlpha = false)]

theorem numberValue?_eq_none_iff (hc : c.isDigit) (hcs : ∀ d ∈ cs, d.isDigit ∨ d = '.') :
    numberValue? (c :: cs) = none ↔ 2 ≤ (c :: cs).count '.' := by
  have hall : ∀ d ∈ c :: cs, d.isDigit ∨ d = '.' := List.forall_mem_cons.2 ⟨.inl hc, hcs⟩
  generalize c :: cs = lexeme at hall
  have hwhole : (lexeme.takeWhile Char.isDigit).count '.' = 0 := by
    refine List.count_eq_zero.2 fun hmem => ?_
    have hdigit := List.all_eq_true.1 List.all_takeWhile '.' hmem
    cases hdigit
  have hcount : lexeme.count '.' = (lexeme.dropWhile Char.isDigit).count '.' := by
    conv => lhs; rw [← List.takeWhile_append_dropWhile (p := Char.isDigit) (l := lexeme)]
    rw [List.count_append, hwhole, Nat.zero_add]
  unfold numberValue?
  dsimp only
  split
  · next hdrop =>
    rw [hcount, hdrop]
    simp
  · next d fraction hdrop =>
    -- The digits end at a point, so there is a second point if not all that follows are digits.
    have hnot : d.isDigit = false := by
      have h := List.head?_dropWhile_not Char.isDigit lexeme
      rw [hdrop] at h
      exact h
    have htail : ∀ e ∈ d :: fraction, e.isDigit ∨ e = '.' := fun e he =>
      hall e ((List.dropWhile_suffix Char.isDigit).mem (hdrop ▸ he))
    obtain ⟨hd, hfraction⟩ := List.forall_mem_cons.1 htail
    obtain rfl : d = '.' := hd.resolve_left (by simp [hnot])
    have hrest : fraction.all Char.isDigit ↔ fraction.count '.' = 0 := by
      rw [List.all_eq_true, List.count_eq_zero]
      constructor
      · intro h hmem
        cases h '.' hmem
      · intro h e he
        refine (hfraction e he).resolve_right ?_
        rintro rfl
        exact h he
    rw [hcount, hdrop, List.count_cons_self]
    split
    · next h =>
      have hzero := hrest.1 h
      simp [hzero]
    · next h =>
      have hsome : fraction.count '.' ≠ 0 := fun hzero => h (hrest.2 hzero)
      simp only [true_iff]
      omega

theorem Fits.of_digit (hc : c.isDigit) (cs : List Char) :
    Fits ⟨.number (numberValue? (c :: cs.takeWhile isNumberPart)),
      String.ofList (c :: cs.takeWhile isNumberPart)⟩ (cs.dropWhile isNumberPart) := by
  have hcs : ∀ d ∈ cs.takeWhile isNumberPart, d.isDigit ∨ d = '.' := fun d hd =>
    isNumberPart_iff.1 (List.all_eq_true.1 List.all_takeWhile d hd)
  refine .number _ c _ hc hcs ?_ (numberValue?_eq_none_iff hc hcs)
  intro d hd hpart
  have h := List.head?_dropWhile_not isNumberPart cs
  rw [Option.mem_def.1 hd] at h
  exact Bool.false_ne_true (h.symm.trans (isNumberPart_iff.2 hpart))

theorem Fits.of_alpha (hc : c.isAlpha) (cs : List Char) :
    let name := String.ofList (c :: (nameTail false cs).1)
    Fits ⟨nameKind name (nameTail false cs).2, name⟩ (nameTail false cs).2 := by
  intro name
  let x : Name := ⟨c, (nameTail false cs).1, hc, isNameRest_nameTail false cs⟩
  unfold nameKind
  split
  · next hopening => exact .call x (endsName_nameTail cs) hopening
  · next hopening => exact .name x (endsName_nameTail cs) hopening

theorem Segments.text_eq (h : Segments cs pieces last) :
    cs = (pieces.flatMap fun (skipped, t) => skipped ++ t.lexeme.toList) ++ last := by
  induction h with
  | last => rfl
  | piece _ _ _ ih =>
    conv => lhs; rw [ih]
    simp only [List.flatMap_cons, List.append_assoc]

theorem Segments.cons_idle (h : Segments cs pieces last) (hc : isIdle c) :
    ∃ pieces' last', Segments (c :: cs) pieces' last' ∧
      pieces'.map Prod.snd = pieces.map Prod.snd := by
  cases h with
  | last h => exact ⟨[], c :: cs, .last (List.forall_mem_cons.2 ⟨hc, h⟩), rfl⟩
  | @piece skipped t rest pieces last hskipped ht h =>
    exact ⟨_, _, .piece (List.forall_mem_cons.2 ⟨hc, hskipped⟩) ht h, rfl⟩

theorem Segments.cons_token (h : Segments rest pieces last) (ht : Fits t rest) :
    Segments (t.lexeme.toList ++ rest) (([], t) :: pieces) last :=
  .piece (List.forall_mem_nil _) ht h

/-- Scanning cuts a text into its tokens. -/
theorem exists_segments (cs : List Char) :
    ∃ pieces last, Segments cs pieces last ∧ pieces.map Prod.snd = scan cs := by
  fun_induction scan cs with
  | case1 => exact ⟨[], [], .last (List.forall_mem_nil _), rfl⟩
  | case2 c r hc lexeme ih =>
    obtain ⟨pieces, last, h, htokens⟩ := ih
    have hcut := h.cons_token (.of_digit hc r)
    rw [String.toList_ofList, List.cons_append, List.takeWhile_append_dropWhile] at hcut
    exact ⟨_, last, hcut, congrArg (_ :: ·) htokens⟩
  | case3 c r _ hc name ih =>
    obtain ⟨pieces, last, h, htokens⟩ := ih
    have hcut := h.cons_token (.of_alpha hc r)
    rw [String.toList_ofList, List.cons_append, nameTail_append] at hcut
    exact ⟨_, last, hcut, congrArg (_ :: ·) htokens⟩
  | case4 c r _ _ kind hkind ih =>
    obtain ⟨pieces, last, h, htokens⟩ := ih
    have hcut := h.cons_token (fits_mark hkind r)
    rw [toList_toString] at hcut
    exact ⟨_, last, hcut, congrArg (_ :: ·) htokens⟩
  | case5 c r hdigit halpha hmark ih =>
    obtain ⟨pieces, last, h, htokens⟩ := ih
    have hidle : isIdle c := isIdle_iff.2 ⟨⟨by simpa using hdigit, by simpa using halpha⟩, hmark⟩
    obtain ⟨pieces', last', h', hsame⟩ := h.cons_idle hidle
    exact ⟨pieces', last', h', hsame.trans htokens⟩

/-- The lexeme that a text begins with, and what follows it. -/
def cutLexeme : List Char → List Char × List Char
  | [] => ([], [])
  | c :: r =>
    if c.isDigit then (c :: r.takeWhile isNumberPart, r.dropWhile isNumberPart)
    else if c.isAlpha then (c :: (nameTail false r).1, (nameTail false r).2)
    else ([c], r)

theorem cutLexeme_mark (h : (mark? c).isSome) (rest : List Char) :
    cutLexeme (c :: rest) = ([c], rest) := by
  obtain ⟨⟨hdigit, halpha⟩, -⟩ := mark_classes h
  simp [cutLexeme, hdigit, halpha]

theorem Name.cutLexeme_text (x : Name) (h : EndsName x.rest rest) :
    cutLexeme (x.string.toList ++ rest) = (x.string.toList, rest) := by
  have hdigit := isDigit_of_isAlpha x.isAlpha_first
  have htail := h.nameTail_eq x.isNameRest
  rw [string, String.toList_ofList, text, List.cons_append]
  simp [cutLexeme, hdigit, x.isAlpha_first, htail]

theorem Fits.cutLexeme_append (h : Fits t rest) :
    cutLexeme (t.lexeme.toList ++ rest) = (t.lexeme.toList, rest) := by
  cases h with
  | operator op h =>
    obtain ⟨c, hmark, hsymbol, -⟩ := Operator.symbol_eq h
    have htext : op.symbol.toList = [c] := hsymbol ▸ toList_toString c
    rw [htext]
    exact cutLexeme_mark (Option.isSome_of_eq_some hmark) rest
  | opening => exact cutLexeme_mark rfl rest
  | closing => exact cutLexeme_mark rfl rest
  | comma => exact cutLexeme_mark rfl rest
  | number value c cs hc hcs hend _ =>
    have hstop : ∀ d ∈ rest.head?, isNumberPart d = false := fun d hd =>
      Bool.eq_false_iff.2 (mt isNumberPart_iff.1 (hend d hd))
    obtain ⟨htake, hdrop⟩ :=
      takeWhile_append_of_boundary rest (fun d hd => isNumberPart_iff.2 (hcs d hd)) hstop
    rw [String.toList_ofList, List.cons_append, cutLexeme, if_pos hc, htake, hdrop]
  | call x hend _ => exact x.cutLexeme_text hend
  | name x hend _ => exact x.cutLexeme_text hend

theorem isIdle_of_mark {kind : Token.Kind} (h : mark? c = some kind) : isIdle c = false := by
  refine Bool.eq_false_iff.2 fun hidle => ?_
  rw [(isIdle_iff.1 hidle).2] at h
  cases h

theorem isIdle_of_isDigit (h : c.isDigit) : isIdle c = false := by
  simp [isIdle, Char.isAlphanum, h]

theorem isIdle_of_isAlpha (h : c.isAlpha) : isIdle c = false := by
  simp [isIdle, Char.isAlphanum, h]

/-- A lexeme begins with a character that is not skipped. -/
theorem Fits.exists_cons (h : Fits t rest) :
    ∃ c cs, t.lexeme.toList = c :: cs ∧ isIdle c = false := by
  cases h with
  | operator op h =>
    obtain ⟨c, hkind, hsymbol, -⟩ := Operator.symbol_eq h
    exact ⟨c, [], hsymbol ▸ toList_toString c, isIdle_of_mark hkind⟩
  | opening => exact ⟨'(', [], rfl, by decide⟩
  | closing => exact ⟨')', [], rfl, by decide⟩
  | comma => exact ⟨',', [], rfl, by decide⟩
  | number value c cs hc => exact ⟨c, cs, String.toList_ofList, isIdle_of_isDigit hc⟩
  | call x => exact ⟨x.first, x.rest, String.toList_ofList, isIdle_of_isAlpha x.isAlpha_first⟩
  | name x => exact ⟨x.first, x.rest, String.toList_ofList, isIdle_of_isAlpha x.isAlpha_first⟩

/-- The characters that are skipped end where a lexeme begins. -/
theorem Fits.takeWhile_append {skipped : List Char} (hskipped : ∀ c ∈ skipped, isIdle c)
    (h : Fits t rest) :
    (skipped ++ (t.lexeme.toList ++ rest)).takeWhile isIdle = skipped ∧
      (skipped ++ (t.lexeme.toList ++ rest)).dropWhile isIdle = t.lexeme.toList ++ rest := by
  obtain ⟨c, cs, htext, hc⟩ := h.exists_cons
  refine takeWhile_append_of_boundary _ hskipped ?_
  rw [htext]
  intro d hd
  cases hd
  exact hc

/-- The characters that are skipped, and the lexeme after them. -/
def spelling (piece : List Char × Token) : List Char × String := (piece.1, piece.2.lexeme)

theorem Segments.unique {cs' : List Char} (h : Segments cs pieces last)
    (h' : Segments cs' pieces' last') (hcs : cs = cs') :
    pieces'.map spelling = pieces.map spelling ∧ last' = last := by
  -- No text of idle characters has a lexeme in it.
  have hnone : ∀ {skipped t rest}, Fits t rest →
      ¬ ∀ c ∈ skipped ++ (t.lexeme.toList ++ rest), isIdle c := by
    intro skipped t rest ht hidle
    obtain ⟨c, cs, htext, hc⟩ := ht.exists_cons
    have hmem : c ∈ skipped ++ (t.lexeme.toList ++ rest) := by simp [htext]
    exact Bool.false_ne_true (hc.symm.trans (hidle c hmem))
  induction h generalizing cs' pieces' last' with
  | @last cs hidle =>
    cases h' with
    | last => exact ⟨rfl, hcs.symm⟩
    | piece _ ht' _ => exact absurd (hcs ▸ hidle) (hnone ht')
  | @piece skipped t rest pieces last hskipped ht h ih =>
    cases h' with
    | last hidle => exact absurd (hcs ▸ hidle) (hnone ht)
    | @piece skipped' t' rest' pieces' last' hskipped' ht' h' =>
      obtain ⟨htake, hdrop⟩ := ht.takeWhile_append hskipped
      obtain ⟨htake', hdrop'⟩ := ht'.takeWhile_append hskipped'
      have hsame : skipped' = skipped := by rw [← htake', ← hcs, htake]
      have htext : t'.lexeme.toList ++ rest' = t.lexeme.toList ++ rest := by
        rw [← hdrop', ← hcs, hdrop]
      have hcut : (t'.lexeme.toList, rest') = (t.lexeme.toList, rest) := by
        rw [← ht'.cutLexeme_append, htext, ht.cutLexeme_append]
      obtain ⟨hlexeme, hrest⟩ := Prod.mk.inj hcut
      obtain ⟨hpieces, hlast⟩ := ih h' hrest.symm
      have hspelling : spelling (skipped', t') = spelling (skipped, t) :=
        Prod.ext hsame (String.toList_inj.1 hlexeme)
      exact ⟨congrArg₂ (· :: ·) hspelling hpieces, hlast⟩

theorem isNamePart_iff : isNamePart c ↔ c.isAlphanum ∨ c ∈ ['_', '[', ']'] := by
  simp [isNamePart, Char.isAlphanum, or_assoc]

theorem isAxis_iff : isAxis c ↔ c ∈ ['x', 'y', 'z'] := by
  simp [isAxis, or_assoc]

/-- The text of a formula without its blanks is what is skipped before its tokens, their lexemes,
and what is skipped at the end, each lexeme as long as it can be; and a text can only be cut so in
one way. After its first letter a name holds letters, digits, underscores and square brackets, and
a point with a coordinate letter after a closing one. -/
theorem tokens_segment_uniquely (formula : String) :
    let text := formula.toList.filter fun c => !isBlankChar c
    (∃ pieces last, Segments text pieces last ∧ pieces.map Prod.snd = tokens formula ∧
      text = (pieces.flatMap fun (skipped, t) => skipped ++ t.lexeme.toList) ++ last ∧
      ∀ pieces' last', Segments text pieces' last' →
        pieces'.map spelling = pieces.map spelling ∧ last' = last) ∧
      (∀ c, isNamePart c ↔ c.isAlphanum ∨ c ∈ ['_', '[', ']']) ∧
      ∀ c, isAxis c ↔ c ∈ ['x', 'y', 'z'] := by
  intro text
  obtain ⟨pieces, last, h, htokens⟩ := exists_segments text
  exact ⟨⟨pieces, last, h, htokens, h.text_eq, fun _ _ h' => h.unique h' rfl⟩,
    fun _ => isNamePart_iff, fun _ => isAxis_iff⟩

end RobotHand.Formula
