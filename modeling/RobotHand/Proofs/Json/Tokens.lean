import RobotHand.Proofs.Json.Decimals
import RobotHand.Proofs.Json.Texts

/-! Printed values are cut into the tokens that they are made of. -/
namespace RobotHand.Json

mutual

/-- What a value is read back as: numbers that are not finite are printed as null. -/
def readBack : Json → Json
  | .null => .null
  | .bool b => .bool b
  | .int i => .int i
  | .real x => if (Binary64.ofFloat x).isFinite then .real x else .null
  | .text s => .text s
  | .array items => .array (readBackItems items)
  | .object fields => .object (readBackFields fields)

def readBackItems : List Json → List Json
  | [] => []
  | v :: vs => readBack v :: readBackItems vs

def readBackFields : List (String × Json) → List (String × Json)
  | [] => []
  | (name, v) :: fields => (name, readBack v) :: readBackFields fields

end

mutual

def tokens : Json → List Token
  | .text s => [.text s]
  | .array [] => [.openArray, .closeArray]
  | .array (v :: vs) => .openArray :: (tokens v ++ (itemTokens vs ++ [.closeArray]))
  | .object [] => [.openObject, .closeObject]
  | .object ((name, v) :: fields) =>
    .openObject :: .text name :: .colon :: (tokens v ++ (fieldTokens fields ++ [.closeObject]))
  | .null => [.scalar .null]
  | .bool b => [.scalar (.bool b)]
  | .int i => [.scalar (.int i)]
  | .real x => [.scalar (.real x)]

def itemTokens : List Json → List Token
  | [] => []
  | v :: vs => .comma :: (tokens v ++ itemTokens vs)

def fieldTokens : List (String × Json) → List Token
  | [] => []
  | (name, v) :: fields => .comma :: .text name :: .colon :: (tokens v ++ fieldTokens fields)

end

namespace Token

variable {c : Char} {cs w s rest : List Char} {t : Token} {ts ts' : List Token}

/-- What a word does not go on with. -/
def EndsWord (rest : List Char) : Prop := ∀ c ∈ rest.head?, isWordPart c = false

theorem endsWord_nil : EndsWord [] := by
  rintro c ⟨⟩

theorem endsWord_cons (hc : isWordPart c = false) (cs : List Char) : EndsWord (c :: cs) := by
  rintro d ⟨⟩
  exact hc

theorem EndsWord.append (hs : EndsWord s) (hrest : EndsWord rest) : EndsWord (s ++ rest) := by
  cases s with
  | nil => exact hrest
  | cons c cs => exact hs

/-- A text has certain tokens, whatever follows it. -/
def Scans (s : List Char) (ts : List Token) : Prop :=
  ∀ rest, EndsWord rest → scan? (s ++ rest) = (scan? rest).map (ts ++ ·)

theorem scans_nil : Scans [] [] := by
  intro rest _
  exact Option.map_id'.symm

theorem Scans.append (hs : Scans s ts) (hw : EndsWord w) (hscans : Scans w ts') :
    Scans (s ++ w) (ts ++ ts') := by
  intro rest hrest
  rw [List.append_assoc, hs _ (hw.append hrest), hscans rest hrest, Option.map_map]
  exact Option.map_congr fun later _ => (List.append_assoc ts ts' later).symm

theorem eq_of_isSpace (h : isSpace c) : c = ' ' ∨ c = '\t' ∨ c = '\n' ∨ c = '\r' := by
  simpa [isSpace, or_assoc] using h

theorem not_isWordPart_of_isSpace (h : isSpace c) : isWordPart c = false := by
  obtain rfl | rfl | rfl | rfl := eq_of_isSpace h <;> rfl

theorem not_isSpace_of_mark (h : mark? c = some t) : isSpace c = false := by
  rw [Bool.eq_false_iff]
  intro hspace
  obtain rfl | rfl | rfl | rfl := eq_of_isSpace hspace <;>
    exact absurd h (Option.some_ne_none t).symm

theorem not_isWordPart_of_mark (h : mark? c = some t) : isWordPart c = false := by
  unfold mark? at h
  split at h
  case h_7 => exact absurd h (Option.some_ne_none t).symm
  all_goals rfl

theorem scan_space (hc : isSpace c) (cs : List Char) : scan? (c :: cs) = scan? cs := by
  rw [scan?, if_pos hc]

theorem scan_mark (h : mark? c = some t) (cs : List Char) :
    scan? (c :: cs) = (scan? cs).map (t :: ·) := by
  rw [scan?, if_neg (Bool.eq_false_iff.1 (not_isSpace_of_mark h)), h]

theorem scan_quote (text : String) (rest : List Char) :
    scan? ((quote text).toList ++ rest) = (scan? rest).map (.text text :: ·) := by
  have hbody := textBody_flatMap text.toList rest
  rw [quote, String.toList_ofList, List.cons_append, List.cons_append, List.append_assoc, scan?,
    if_neg (by decide)]
  change (if '"' = '"' then _ else _) = _
  rw [if_pos rfl]
  split
  · next h =>
    obtain ⟨rfl, rfl⟩ := Prod.mk.inj (Option.some.inj (h.symm.trans hbody))
    rw [String.ofList_toList]
  · next h => exact absurd (h.symm.trans hbody) (Option.some_ne_none _).symm

theorem scan_word (hne : w ≠ []) (hw : ∀ c ∈ w, isWordPart c) (hrest : EndsWord rest) :
    scan? (w ++ rest) = (wordValue? w).bind fun v => (scan? rest).map (.scalar v :: ·) := by
  obtain ⟨c, cs, rfl⟩ := List.exists_cons_of_ne_nil hne
  have hc := hw c List.mem_cons_self
  obtain ⟨htake, hdrop⟩ := Formula.takeWhile_append_of_boundary rest
    (fun d hd => hw d (List.mem_cons_of_mem c hd)) hrest
  have hspace : ¬ isSpace c := fun h =>
    absurd hc (Bool.eq_false_iff.1 (not_isWordPart_of_isSpace h))
  have hmark : mark? c = none := by
    rw [Option.eq_none_iff_forall_ne_some]
    exact fun t h => absurd hc (Bool.eq_false_iff.1 (not_isWordPart_of_mark h))
  have hquote : c ≠ '"' := by
    rintro rfl
    exact absurd hc (by decide)
  rw [List.cons_append, scan?, if_neg hspace, hmark]
  dsimp only
  rw [if_neg hquote, if_pos hc, htake, hdrop]
  cases wordValue? (c :: cs) <;> rfl

theorem scans_mark (h : mark? c = some t) (hs : Scans s ts) : Scans (c :: s) (t :: ts) := by
  intro rest hrest
  rw [List.cons_append, scan_mark h, hs rest hrest, Option.map_map]
  rfl

theorem scans_spaces (hw : ∀ c ∈ w, isSpace c) (hs : Scans s ts) : Scans (w ++ s) ts := by
  induction w with
  | nil => exact hs
  | cons c w ih =>
    intro rest hrest
    have hc := hw c List.mem_cons_self
    rw [List.cons_append, List.cons_append, scan_space hc]
    exact ih (fun d hd => hw d (List.mem_cons_of_mem c hd)) rest hrest

theorem scans_quote (text : String) (hs : Scans s ts) :
    Scans ((quote text).toList ++ s) (.text text :: ts) := by
  intro rest hrest
  rw [List.append_assoc, scan_quote, hs rest hrest, Option.map_map]
  rfl

/-- A word with a meaning is cut off as a token. -/
theorem scans_word {v : Json} (hvalue : wordValue? w = some v) (hw : ∀ c ∈ w, isWordPart c) :
    Scans w [.scalar v] := by
  intro rest hrest
  rw [scan_word (ne_nil_of_wordValue hvalue) hw hrest, hvalue]
  rfl

end Token

open Token

section Printing

variable (layout : Layout)

theorem isSpace_newline (depth : Nat) : ∀ c ∈ (layout.newline depth).toList, isSpace c := by
  cases layout with
  | line =>
    rintro c ⟨⟩
  | indented =>
    intro c hc
    simp only [Layout.newline, String.toList_append, String.toList_ofList] at hc
    rcases List.mem_append.1 hc with hc | hc
    · rw [List.mem_singleton.1 hc]
      rfl
    · rw [List.eq_of_mem_replicate hc]
      rfl

variable {depth : Nat} {c c' : Char} {first others : List Char} {t t' : Token}
  {ts ts' : List Token}

theorem endsWord_newline (hclose : mark? c' = some t') (rest : List Char) :
    EndsWord ((layout.newline depth).toList ++ c' :: rest) := by
  refine EndsWord.append (fun d hd => ?_) (endsWord_cons (not_isWordPart_of_mark hclose) rest)
  exact not_isWordPart_of_isSpace (isSpace_newline layout depth d (List.mem_of_mem_head? hd))

theorem scans_enclosed (hopen : mark? c = some t) (hclose : mark? c' = some t')
    (hfirst : Scans first ts) (hothers : Scans others ts') (hends : EndsWord others) :
    Scans (c :: ((layout.newline (depth + 1)).toList ++
        (first ++ (others ++ ((layout.newline depth).toList ++ [c'])))))
      (t :: (ts ++ (ts' ++ [t']))) := by
  have hnewline := @endsWord_newline layout depth _ _ hclose []
  have hend := scans_spaces (isSpace_newline layout depth) (scans_mark hclose scans_nil)
  have hparts := hfirst.append (hends.append hnewline) (hothers.append hnewline hend)
  exact scans_mark hopen (scans_spaces (isSpace_newline layout (depth + 1)) hparts)

theorem scans_separated (hfirst : Scans first ts) (hothers : Scans others ts')
    (hends : EndsWord others) :
    Scans (',' :: ((layout.newline depth).toList ++ (first ++ others))) (.comma :: (ts ++ ts')) :=
  scans_mark rfl (scans_spaces (isSpace_newline layout depth) (hfirst.append hends hothers))

theorem scans_field (name : String) (hfirst : Scans first ts) :
    Scans ((quote name).toList ++ (layout.colon.toList ++ first)) (.text name :: .colon :: ts) := by
  apply scans_quote
  cases layout with
  | line => exact scans_mark rfl hfirst
  | indented => exact scans_mark rfl (scans_spaces (w := [' ']) (by simp [isSpace]) hfirst)

theorem endsWord_printItems (vs : List Json) : EndsWord (printItems layout depth vs).toList := by
  cases vs with
  | nil => exact endsWord_nil
  | cons v vs =>
    simp only [printItems, String.toList_append, List.append_assoc]
    exact endsWord_cons rfl _

theorem endsWord_printFields (fields : List (String × Json)) :
    EndsWord (printFields layout depth fields).toList := by
  cases fields with
  | nil => exact endsWord_nil
  | cons field fields =>
    simp only [printFields, String.toList_append, List.append_assoc]
    exact endsWord_cons rfl _

theorem scans_null : Scans "null".toList [.scalar .null] :=
  scans_word (by simp [wordValue?]) (List.all_eq_true.1 rfl)

theorem scans_bool (b : Bool) :
    Scans (if b then "true" else "false").toList [.scalar (.bool b)] := by
  cases b with
  | true => exact scans_word (by simp [wordValue?]) (List.all_eq_true.1 rfl)
  | false => exact scans_word (by simp [wordValue?]) (List.all_eq_true.1 rfl)

theorem scans_number (x : Float) : Scans (number x).toList (tokens (readBack (.real x))) := by
  rw [number, readBack]
  split
  · next h => exact scans_word (Decimal.wordValue_plain h) (Decimal.isWordPart_plain h)
  · exact scans_null

theorem scans_toString (i : Int) : Scans (toString i).toList [.scalar (.int i)] :=
  scans_word (wordValue_toString i) (isWordPart_toString i)

theorem scans_empty (hopen : mark? c = some t) (hclose : mark? c' = some t') :
    Scans [c, c'] [t, t'] :=
  scans_mark hopen (scans_mark hclose scans_nil)

mutual

/-- The text of a value is cut into the tokens of what it is read back as. -/
theorem scans_print (depth : Nat) : ∀ v : Json,
    Scans (print layout depth v).toList (tokens (readBack v))
  | .null => scans_null
  | .bool b => scans_bool b
  | .int i => scans_toString i
  | .real x => scans_number x
  | .text s => by
    have hscans := scans_quote s scans_nil
    rwa [List.append_nil] at hscans
  | .array [] => by
    rw [print]
    exact scans_empty rfl rfl
  | .array (v :: vs) => by
    have hv := scans_print (depth + 1) v
    have hvs := scans_printItems (depth + 1) vs
    simp only [print, String.toList_append, List.append_assoc]
    exact scans_enclosed layout rfl rfl hv hvs (endsWord_printItems layout vs)
  | .object [] => by
    rw [print]
    exact scans_empty rfl rfl
  | .object ((name, v) :: fields) => by
    have hv := scans_field layout name (scans_print (depth + 1) v)
    have hvs := scans_printFields (depth + 1) fields
    have hscans := @scans_enclosed layout depth '\x7b' '\x7d' _ _ _ _ _ _ rfl rfl hv hvs
      (endsWord_printFields layout fields)
    simp only [print, String.toList_append, List.append_assoc] at hscans ⊢
    exact hscans

theorem scans_printItems (depth : Nat) : ∀ vs : List Json,
    Scans (printItems layout depth vs).toList (itemTokens (readBackItems vs))
  | [] => scans_nil
  | v :: vs => by
    have hv := scans_print depth v
    have hvs := scans_printItems depth vs
    simp only [printItems, String.toList_append, List.append_assoc]
    exact scans_separated layout hv hvs (endsWord_printItems layout vs)

theorem scans_printFields (depth : Nat) : ∀ fields : List (String × Json),
    Scans (printFields layout depth fields).toList (fieldTokens (readBackFields fields))
  | [] => scans_nil
  | (name, v) :: fields => by
    have hv := scans_field layout name (scans_print depth v)
    have hvs := scans_printFields depth fields
    have hscans := @scans_separated layout depth _ _ _ _ hv hvs (endsWord_printFields layout fields)
    simp only [printFields, String.toList_append, List.append_assoc] at hscans ⊢
    exact hscans

end

end Printing

end RobotHand.Json
