import RobotHand.Json.Printing
import RobotHand.Json.Reading

/-! Printed texts are read back, whatever characters they hold. -/
namespace RobotHand.Json.Token

variable {a b c d : Char} {m : Nat}

def prepend (c : Char) (o : Option (List Char × List Char)) : Option (List Char × List Char) :=
  o.map fun p => (c :: p.1, p.2)

theorem textBody_badUnit (h : codeUnit? a b c d = none) (cs : List Char) :
    textBody ('\\' :: 'u' :: a :: b :: c :: d :: cs) = none := by
  by_cases hunit : ∃ a' b' c' d' r, cs = '\\' :: 'u' :: a' :: b' :: c' :: d' :: r
  · obtain ⟨a', b', c', d', r, rfl⟩ := hunit
    rw [textBody.eq_3, h]
  · rw [textBody.eq_4 a b c d cs fun a' b' c' d' r hcs => hunit ⟨a', b', c', d', r, hcs⟩, h]

/-- Four digits below the surrogates are a character of their own, whatever follows them. -/
theorem textBody_unit (h : codeUnit? a b c d = some m) (hm : m < 0xd800) (cs : List Char) :
    textBody ('\\' :: 'u' :: a :: b :: c :: d :: cs) = prepend (Char.ofNat m) (textBody cs) := by
  -- A second escape after the first is looked at together with it, as half of a pair.
  by_cases hunit : ∃ a' b' c' d' r, cs = '\\' :: 'u' :: a' :: b' :: c' :: d' :: r
  · obtain ⟨a', b', c', d', r, rfl⟩ := hunit
    rw [textBody.eq_3, h]
    cases h' : codeUnit? a' b' c' d' with
    | none =>
      rw [textBody_badUnit h']
      rfl
    | some n =>
      dsimp only
      rw [if_neg (by omega), if_neg (by omega)]
      rfl
  · rw [textBody.eq_4 a b c d cs fun a' b' c' d' r hcs => hunit ⟨a', b', c', d', r, hcs⟩, h]
    dsimp only
    rw [if_neg (by omega)]
    rfl

theorem textBody_escaped {e : Char} (h : escaped? c = some e) (cs : List Char) :
    textBody ('\\' :: c :: cs) = prepend e (textBody cs) := by
  have hu : c ≠ 'u' := by
    rintro rfl
    exact absurd h (Option.some_ne_none e).symm
  rw [textBody.eq_5 c cs (fun _ _ _ _ _ _ _ _ _ hc => absurd hc hu)
    (fun _ _ _ _ _ hc => absurd hc hu), h]
  rfl

theorem textBody_plain (hquote : c ≠ '"') (hslash : c ≠ '\\') (hcontrol : ¬ c.toNat < 0x20)
    (cs : List Char) : textBody (c :: cs) = prepend c (textBody cs) := by
  rw [textBody.eq_6 c cs hquote (fun _ _ _ _ _ _ _ _ _ hc => absurd hc hslash)
    (fun _ _ _ _ _ hc => absurd hc hslash) (fun _ _ hc => absurd hc hslash), if_neg hcontrol]
  rfl

theorem codeUnit_hex : ∀ n < 0x20,
    Quoted.hex 4 n = ['0', '0', (n / 16).digitChar, (n % 16).digitChar] ∧
      codeUnit? '0' '0' (n / 16).digitChar (n % 16).digitChar = some n := by
  decide

/-- A character is read back as it is written. -/
theorem textBody_escape (c : Char) (cs : List Char) :
    textBody (escape c ++ cs) = prepend c (textBody cs) := by
  unfold escape
  split
  case h_8 hquote hslash _ _ _ _ _ =>
    split
    · next hcontrol =>
      obtain ⟨hhex, hunit⟩ := codeUnit_hex c.toNat hcontrol
      have hread := textBody_unit hunit (by omega) cs
      rw [Char.ofNat_toNat] at hread
      rw [hhex]
      exact hread
    · next hcontrol => exact textBody_plain hquote hslash hcontrol cs
  all_goals exact textBody_escaped rfl cs

/-- A text is read back up to its closing quote. -/
theorem textBody_flatMap (s rest : List Char) :
    textBody (s.flatMap escape ++ '"' :: rest) = some (s, rest) := by
  induction s with
  | nil => exact textBody.eq_2 rest
  | cons c s ih =>
    rw [List.flatMap_cons, List.append_assoc, textBody_escape, ih]
    rfl

end RobotHand.Json.Token
