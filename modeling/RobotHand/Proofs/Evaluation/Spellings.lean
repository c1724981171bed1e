import RobotHand.Proofs.Evaluation.Visibility

/-! The two spellings of a coordinate, `L[4].x` and `Lx[4]`. They are read alike, whatever the
digits are, so that a tree may hold either at each place. -/
namespace RobotHand.Formula

/-- Decimal digits of any script, at least one. -/
def AreDigits (cs : List Char) : Prop := cs ≠ [] ∧ ∀ c ∈ cs, (digitValue? c).isSome

/-- The variable for a coordinate, with its axis after a point. -/
def dotted (cs : List Char) (axis : Axis) : String :=
  String.ofList ('L' :: '[' :: cs ++ [']', '.', axis.letter])

/-- The variable for a coordinate, with its axis before the digits. -/
def lettered (cs : List Char) (axis : Axis) : String :=
  String.ofList ('L' :: axis.letter :: '[' :: cs ++ [']'])

/-- A name is one of the two spellings of a coordinate. -/
def Spells (name : String) (cs : List Char) (axis : Axis) : Prop :=
  AreDigits cs ∧ (name = dotted cs axis ∨ name = lettered cs axis)

variable {cs rest : List Char} {axis : Axis} {name name' : String} {frame : Frame} {room : Nat}

theorem Axis.ofChar_letter (axis : Axis) : ofChar? axis.letter = some axis := by
  cases axis <;> rfl

theorem dropFinalNewline_append {c : Char} (hc : c ≠ '\n') (cs : List Char) :
    dropFinalNewline (cs ++ [c]) = cs ++ [c] := by
  rw [dropFinalNewline, List.getLast?_concat, if_neg]
  exact fun h => hc (Option.some.inj h)

/-- Digits are read up to a closing square bracket. -/
theorem leadingDigits_append (h : ∀ c ∈ cs, (digitValue? c).isSome) (rest : List Char) :
    leadingDigits (cs ++ ']' :: rest) = (cs.filterMap digitValue?, ']' :: rest) := by
  induction cs with
  | nil =>
    have hclose : digitValue? ']' = none := by decide
    rw [List.nil_append, leadingDigits, hclose, List.filterMap_nil]
  | cons c cs ih =>
    obtain ⟨hc, hcs⟩ := List.forall_mem_cons.1 h
    obtain ⟨d, hd⟩ := Option.isSome_iff_exists.1 hc
    rw [List.cons_append, leadingDigits, hd, List.filterMap_cons_some hd, ih hcs]

theorem AreDigits.exists_cons (h : AreDigits cs) :
    ∃ d ds, cs.filterMap digitValue? = d :: ds := by
  obtain ⟨hne, hdigits⟩ := h
  obtain ⟨c, cs, rfl⟩ := List.exists_cons_of_ne_nil hne
  obtain ⟨d, hd⟩ := Option.isSome_iff_exists.1 (hdigits c List.mem_cons_self)
  exact ⟨d, _, List.filterMap_cons_some hd⟩

theorem coordinateOf_dotted (h : AreDigits cs) (axis : Axis) :
    coordinateOf? (dotted cs axis) = some (cs.filterMap digitValue?, axis) := by
  have hletter : axis.letter ≠ '\n' := by cases axis <;> decide
  have hname : dropFinalNewline (dotted cs axis).toList =
      'L' :: '[' :: (cs ++ [']', '.', axis.letter]) := by
    have hsplit : (dotted cs axis).toList = ('L' :: '[' :: cs ++ [']', '.']) ++ [axis.letter] := by
      simp [dotted]
    rw [hsplit, dropFinalNewline_append hletter]
    simp
  have hleading := leadingDigits_append h.2 ['.', axis.letter]
  obtain ⟨d, ds, hds⟩ := h.exists_cons
  rw [hds] at hleading ⊢
  simp [coordinateOf?, hname, hleading, axis.ofChar_letter]

theorem coordinateOf_lettered (h : AreDigits cs) (axis : Axis) :
    coordinateOf? (lettered cs axis) = some (cs.filterMap digitValue?, axis) := by
  have hname : dropFinalNewline (lettered cs axis).toList =
      'L' :: axis.letter :: '[' :: (cs ++ [']']) := by
    rw [lettered, String.toList_ofList, dropFinalNewline_append (by decide)]
    simp
  have hleading := leadingDigits_append h.2 []
  obtain ⟨d, ds, hds⟩ := h.exists_cons
  rw [hds] at hleading ⊢
  cases axis <;> simp [coordinateOf?, hname, hleading, Axis.letter, Axis.ofChar?]

/-- Both spellings hold the same digits and axis. -/
theorem Spells.coordinateOf (h : Spells name cs axis) :
    coordinateOf? name = some (cs.filterMap digitValue?, axis) := by
  obtain ⟨hcs, rfl | rfl⟩ := h
  · exact coordinateOf_dotted hcs axis
  · exact coordinateOf_lettered hcs axis

/-- The spelling of a coordinate has no influence on its value. -/
theorem Spells.variableValue_eq (h : Spells name cs axis) (h' : Spells name' cs axis) :
    variableValue name frame = variableValue name' frame := by
  rw [variableValue_of_coordinateOf h.coordinateOf, variableValue_of_coordinateOf h'.coordinateOf]

/-- Only a name that is no spelling of a coordinate is unknown. -/
theorem variableValue_eq_unknown_iff {unknown : String} :
    variableValue name frame = .error (.unknownVariable unknown) ↔
      unknown = name ∧ coordinateOf? name = none := by
  rw [variableValue_eq_error_iff]
  constructor
  · intro h
    cases h with
    | unknownVariable hname => exact ⟨rfl, hname⟩
    | invalidLandmark _ _ _ hplace =>
      obtain ⟨visible, heq⟩ := place_eq_error hplace
      cases heq
  · rintro ⟨rfl, hname⟩
    exact .unknownVariable hname

namespace Expr

/-- Trees that are equal but for the spelling of coordinates. -/
inductive Respelled : Expr → Expr → Prop
  | variable {name name' : String} {cs : List Char} {axis : Axis} (h : Spells name cs axis)
      (h' : Spells name' cs axis) : Respelled (.variable name) (.variable name')
  | node {e e'} (hroot : SameRoot e e') (h : List.Forall₂ Respelled e.operands e'.operands) :
      Respelled e e'

/-- Every spelling may also be left as it is. -/
theorem Respelled.refl (e : Expr) : Respelled e e := by
  induction e using operand_induction with
  | h e ih => exact .node (.refl e) (List.forall₂_same.2 ih)

theorem Respelled.evaluate_eq {e e' : Expr} (h : Respelled e e') :
    e.evaluate frame room = e'.evaluate frame room := by
  induction e using operand_induction generalizing e' room with
  | h e ih =>
    cases h with
    | «variable» h h' =>
      rw [evaluate, evaluate]
      exact h.variableValue_eq h'
    | node hroot h =>
      -- Without room for the root, the operands and their spelling are not looked at.
      by_cases hroom : room < e.weight
      · exact evaluate_of_lt hroot hroom
      · obtain ⟨below, rfl⟩ := Nat.exists_eq_add_of_le' (Nat.le_of_not_lt hroom)
        have hoperands : List.Forall₂
            (fun o o' => o.evaluate frame below = o'.evaluate frame below)
            e.operands e'.operands :=
          ((List.forall₂_and_left _ _).2 ⟨ih, h⟩).imp fun _ _ h => h.1 h.2
        have hnode := related_of_operands (.refl .same frame) hroot hoperands
        rw [← hroot.weight_eq] at hnode
        exact hnode

/-- Coordinates may be spelled either way, each of them at each place of a tree: the outcome stays
the same, be it a value or an error, and no spelling of a coordinate is an unknown variable. -/
theorem coordinate_spellings_are_interchangeable {e e' : Expr} (h : Respelled e e') :
    (∀ frame room, e.evaluate frame room = e'.evaluate frame room) ∧
      (∀ cs axis, AreDigits cs → ∀ frame,
        variableValue (dotted cs axis) frame = variableValue (lettered cs axis) frame) ∧
      ∀ name cs axis, Spells name cs axis →
        ∀ frame unknown, variableValue name frame ≠ .error (.unknownVariable unknown) := by
  refine ⟨fun frame room => h.evaluate_eq, fun cs axis hcs frame => ?_, ?_⟩
  · have hdotted : Spells (dotted cs axis) cs axis := ⟨hcs, .inl rfl⟩
    exact hdotted.variableValue_eq ⟨hcs, .inr rfl⟩
  · intro name cs axis hname frame unknown hunknown
    have hnone := (variableValue_eq_unknown_iff.1 hunknown).2
    rw [hname.coordinateOf] at hnone
    cases hnone

/-- Digits of two scripts, in a tree that keeps another coordinate as it is. -/
theorem coordinate_spellings_are_interchangeable_mixed :
    let e : Expr := .binary .add (.unary .subtract (.variable "L[0\u0660].x")) (.variable "Ly[0]")
    let e' : Expr := .binary .add (.unary .subtract (.variable "Lx[0\u0660]")) (.variable "Ly[0]")
    let frame : Frame := some [⟨default, ⟨1, 3, 5⟩, none⟩]
    Respelled e e' ∧ e.evaluate frame nestingLimit = .ok 2 ∧
      e'.evaluate frame nestingLimit = .ok 2 := by
  intro e e' frame
  have hdigits : AreDigits ['0', '\u0660'] := by
    refine ⟨List.cons_ne_nil _ _, List.forall_mem_cons.2 ⟨by decide, ?_⟩⟩
    exact List.forall_mem_singleton.2 (by decide)
  have hdotted : Spells "L[0\u0660].x" ['0', '\u0660'] .x := ⟨hdigits, .inl rfl⟩
  have hlettered : Spells "Lx[0\u0660]" ['0', '\u0660'] .x := ⟨hdigits, .inr rfl⟩
  have hminus : Respelled (.unary .subtract (.variable "L[0\u0660].x"))
      (.unary .subtract (.variable "Lx[0\u0660]")) :=
    .node .unary (.cons (.variable hdotted hlettered) .nil)
  have hsum : Respelled e e' := .node .binary (.cons hminus (.cons (.refl _) .nil))
  have hvalue : e.evaluate frame nestingLimit = .ok 2 := by decide +kernel
  obtain ⟨hsame, -⟩ := coordinate_spellings_are_interchangeable hsum
  exact ⟨hsum, hvalue, hsame frame nestingLimit ▸ hvalue⟩

end Expr
end RobotHand.Formula
