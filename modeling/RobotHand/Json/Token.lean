import RobotHand.Json.Basic
import RobotHand.Number.Literal

/-! Tokens of JSON texts. NaN and the infinities are read as numbers. -/
namespace RobotHand.Json

inductive Token
  | openArray
  | closeArray
  | openObject
  | closeObject
  | comma
  | colon
  | text (value : String)
  /-- A number, a truth value or null. -/
  | scalar (value : Json)
  deriving Repr

namespace Token

def isSpace (c : Char) : Bool := c == ' ' || c == '\t' || c == '\n' || c == '\r'

def hexValue? (c : Char) : Option Nat :=
  if c.isDigit then some (c.toNat - '0'.toNat)
  else if 'a' ≤ c ∧ c ≤ 'f' then some (c.toNat - 'a'.toNat + 10)
  else if 'A' ≤ c ∧ c ≤ 'F' then some (c.toNat - 'A'.toNat + 10)
  else none

def codeUnit? (a b c d : Char) : Option Nat := do
  let a ← hexValue? a
  let b ← hexValue? b
  let c ← hexValue? c
  let d ← hexValue? d
  return ((a * 16 + b) * 16 + c) * 16 + d

def escaped? (c : Char) : Option Char :=
  match c with
  | '"' => some '"'
  | '\\' => some '\\'
  | '/' => some '/'
  | 'b' => some '\x08'
  | 'f' => some '\x0c'
  | 'n' => some '\n'
  | 'r' => some '\r'
  | 't' => some '\t'
  | _ => none

/-- The text up to the closing quote, and what follows it. Control characters must be escaped, and
surrogates must come in pairs. -/
def textBody : List Char → Option (List Char × List Char)
  | [] => none
  | '"' :: r => some ([], r)
  | '\\' :: 'u' :: a :: b :: c :: d :: '\\' :: 'u' :: a' :: b' :: c' :: d' :: r =>
    match codeUnit? a b c d, codeUnit? a' b' c' d' with
    | some m, some n =>
      if 0xd800 ≤ m ∧ m < 0xdc00 then
        if 0xdc00 ≤ n ∧ n < 0xe000 then
          (textBody r).map fun (s, rest) =>
            (Char.ofNat (0x10000 + (m - 0xd800) * 0x400 + (n - 0xdc00)) :: s, rest)
        else none
      else if 0xdc00 ≤ m ∧ m < 0xe000 then none
      else
        (textBody ('\\' :: 'u' :: a' :: b' :: c' :: d' :: r)).map fun (s, rest) =>
          (Char.ofNat m :: s, rest)
    | _, _ => none
  | '\\' :: 'u' :: a :: b :: c :: d :: r =>
    match codeUnit? a b c d with
    | some m =>
      if 0xd800 ≤ m ∧ m < 0xe000 then none
      else (textBody r).map fun (s, rest) => (Char.ofNat m :: s, rest)
    | none => none
  | '\\' :: c :: r =>
    match escaped? c with
    | some e => (textBody r).map fun (s, rest) => (e :: s, rest)
    | none => none
  | c :: r =>
    if c.toNat < 0x20 then none else (textBody r).map fun (s, rest) => (c :: s, rest)

private theorem exists_of_map_cons {c : Char} {o : Option (List Char × List Char)}
    {s rest : List Char} (h : o.map (fun (s, rest) => (c :: s, rest)) = some (s, rest)) :
    ∃ t, o = some (t, rest) := by
  obtain ⟨⟨t, r⟩, ho, e⟩ := Option.map_eq_some_iff.1 h
  cases e
  exact ⟨t, ho⟩

theorem length_textBody_lt {cs s rest : List Char} (h : textBody cs = some (s, rest)) :
    rest.length < cs.length := by
  fun_induction textBody cs generalizing s rest with
  | case1 => simp at h
  | case2 => cases h; simp
  | case3 | case6 | case9 | case11 | case14 =>
    obtain ⟨t, ht⟩ := exists_of_map_cons h
    have := ‹∀ {s rest}, textBody _ = some (s, rest) → _› ht
    simp only [List.length_cons] at this ⊢
    omega
  | _ => simp at h

def digits? (s : List Char) : Option (List Char × List Char) :=
  if (s.takeWhile Char.isDigit).isEmpty then none
  else some (s.takeWhile Char.isDigit, s.dropWhile Char.isDigit)

/-- A number without its sign; it may have any number of digits. -/
def unsigned? (negative : Bool) (s : List Char) : Option Json := do
  let (whole, r) ← digits? s
  if whole.head? = some '0' ∧ whole ≠ ['0'] then none
  else
    let real (fraction : List Char) (exponent : Int) : Json :=
      let x := Decimal.toFloat (Decimal.valueOf (whole ++ fraction)) (exponent - fraction.length)
      .real (if negative then -x else x)
    match r with
    | [] =>
      let n : Nat := Decimal.valueOf whole
      some (.int (if negative then -(n : Int) else n))
    | '.' :: r => do
      let (fraction, r) ← digits? r
      match r with
      | [] => some (real fraction 0)
      | r => (Decimal.exponent? r).map (real fraction)
    | r => (Decimal.exponent? r).map (real [])

def wordValue? (s : List Char) : Option Json :=
  match String.ofList s with
  | "null" => some .null
  | "true" => some (.bool true)
  | "false" => some (.bool false)
  | "NaN" => some (.real (0 / 0))
  | "Infinity" => some (.real (1 / 0))
  | "-Infinity" => some (.real (-1 / 0))
  | _ =>
    match s with
    | '-' :: r => unsigned? true r
    | r => unsigned? false r

def isWordPart (c : Char) : Bool := c.isAlphanum || c == '+' || c == '-' || c == '.'

def mark? : Char → Option Token
  | '[' => some openArray
  | ']' => some closeArray
  | '{' => some openObject
  | '}' => some closeObject
  | ',' => some comma
  | ':' => some colon
  | _ => none

def scan? : List Char → Option (List Token)
  | [] => some []
  | c :: r =>
    if isSpace c then scan? r
    else
      match mark? c with
      | some t => (scan? r).map (t :: ·)
      | none =>
        if c = '"' then
          match _h : textBody r with
          | some (s, rest) => (scan? rest).map (.text (String.ofList s) :: ·)
          | none => none
        else if isWordPart c then
          match wordValue? (c :: r.takeWhile isWordPart) with
          | some v => (scan? (r.dropWhile isWordPart)).map (.scalar v :: ·)
          | none => none
        else none
termination_by cs => cs.length
decreasing_by
  all_goals simp only [List.length_cons]
  · omega
  · omega
  · have := length_textBody_lt ‹_›
    omega
  · have := (List.dropWhile_sublist isWordPart (l := r)).length_le
    omega

end Token
end RobotHand.Json
