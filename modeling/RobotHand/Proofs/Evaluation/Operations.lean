import RobotHand.Proofs.Evaluation.Breakdowns
import RobotHand.Proofs.Evaluation.Nesting

/-! What the operation of a single node makes of the values of its operands, as rules: one for each
way to succeed and one for each way to fail. Operators, variables and functions follow them. -/
namespace RobotHand.Formula

open Binary64

/-- Where the landmark under a number is in the world. -/
def place (frame : Frame) (id : Float) : Except EvalError Point :=
  Landmark.world <$> landmark id frame

/-- The places of the landmarks under several numbers; one failure names them all. -/
def places (frame : Frame) (ids : List Float) : Except EvalError (List Point) :=
  (ids.mapM (place frame)).mapError fun _ => .invalidLandmarks ids

theorem landmark_bind_world {α : Type} (frame : Frame) (id : Float)
    (k : Point → Except EvalError α) :
    (landmark id frame >>= fun l => k l.world) = place frame id >>= k := by
  unfold place
  cases landmark id frame <;> rfl

theorem places_eq (frame : Frame) (ids : List Float) :
    places frame ids = List.map Landmark.world <$> landmarksOf ids frame := by
  have hmapM : ids.mapM (place frame) =
      List.map Landmark.world <$> ids.mapM fun id => landmark id frame := by
    induction ids with
    | nil => rfl
    | cons id ids ih =>
      rw [List.mapM_cons, List.mapM_cons, ih, place]
      cases landmark id frame with
      | error e => rfl
      | ok l => cases ids.mapM fun id => landmark id frame <;> rfl
  rw [places, landmarksOf, hmapM]
  cases ids.mapM fun id => landmark id frame <;> rfl

theorem places_eq_ok_iff {frame : Frame} {ids : List Float} {ps : List Point} :
    places frame ids = .ok ps ↔ List.Forall₂ (fun id p => place frame id = .ok p) ids ps := by
  rw [places, mapError_eq_ok_iff, mapM_eq_ok_iff]

theorem places_eq_error_iff {frame : Frame} {ids : List Float} {x : EvalError} :
    places frame ids = .error x ↔
      x = .invalidLandmarks ids ∧ ∃ id ∈ ids, ∀ p, place frame id ≠ .ok p := by
  have hok := mapM_eq_ok_iff_forall (f := place frame) (l := ids)
  cases h : ids.mapM (place frame) with
  | error e =>
    rw [h] at hok
    have hnone : ¬ ∀ id ∈ ids, ∃ p, place frame id = .ok p := fun hall => by
      obtain ⟨ps, hps⟩ := hok.2 hall
      cases hps
    simp only [not_forall, not_exists, exists_prop] at hnone
    rw [places, h]
    exact ⟨fun heq => ⟨(Except.error.inj heq).symm, hnone⟩, fun heq => congrArg _ heq.1.symm⟩
  | ok ps =>
    rw [places, h]
    refine ⟨nofun, fun ⟨_, id, hid, hnone⟩ => ?_⟩
    obtain ⟨p, hp⟩ := hok.1 ⟨ps, h⟩ id hid
    exact absurd hp (hnone p)

namespace Builtin

/-- What a function makes of the places of landmarks; a map takes none. -/
def measure : Builtin → List Point → Except EvalError Float
  | distance, [a, b] => .ok (a.distance b)
  | rotation, [origin, a, b] =>
    match Point.planeAngle? origin a b Point.downward with
    | some angle => .ok angle
    | none => .error .collinear
  | f, _ => .error (.argumentCount f)

variable {f : Builtin} {values : List Float} {frame : Frame}

theorem apply_of_length_ne (h : values.length ≠ f.arity) :
    f.apply values frame = .error (.argumentCount f) := by
  unfold apply
  split
  · exact absurd rfl h
  · exact absurd rfl h
  · exact absurd rfl h
  · rfl

theorem apply_of_length (hf : f ≠ .map) (h : values.length = f.arity) :
    f.apply values frame = places frame values >>= f.measure := by
  rw [places_eq]
  cases f with
  | distance =>
    obtain ⟨x, y, rfl⟩ := List.length_eq_two.1 h
    unfold apply
    cases landmarksOf [x, y] frame with
    | error e => rfl
    | ok ls => rcases ls with _ | ⟨a, _ | ⟨b, _ | _⟩⟩ <;> rfl
  | rotation =>
    obtain ⟨x, y, z, rfl⟩ := List.length_eq_three.1 h
    unfold apply
    cases landmarksOf [x, y, z] frame with
    | error e => rfl
    | ok ls => rcases ls with _ | ⟨o, _ | ⟨a, _ | ⟨b, _ | _⟩⟩⟩ <;> rfl
  | map => exact absurd rfl hf

theorem exists_of_arity_map (h : values.length = map.arity) :
    ∃ v a b c d, values = [v, a, b, c, d] := by
  rcases values with _ | ⟨v, _ | ⟨a, _ | ⟨b, _ | ⟨c, _ | ⟨d, _ | ⟨_, _⟩⟩⟩⟩⟩⟩
  case cons.cons.cons.cons.cons.nil => exact ⟨v, a, b, c, d, rfl⟩
  all_goals simp [arity] at h

end Builtin

namespace Expr

/-- The operation of a node succeeds on the values of its operands. -/
inductive Succeeds (frame : Frame) : Expr → List Float → Float → Prop
  | number {v} : Succeeds frame (.number v) [] v
  | variable {name digits axis id p} (hname : coordinateOf? name = some (digits, axis))
      (hfew : digits.length ≤ Breakdown.digitLimit)
      (hid : floatOfInt (numberOfDigits digits) = .ok id) (hp : place frame id = .ok p) :
      Succeeds frame (.variable name) [] (axis.coordinate p)
  | minus {e v} : Succeeds frame (.unary .subtract e) [v] (-v)
  | add {l r a b} : Succeeds frame (.binary .add l r) [a, b] (a + b)
  | subtract {l r a b} : Succeeds frame (.binary .subtract l r) [a, b] (a - b)
  | multiply {l r a b} : Succeeds frame (.binary .multiply l r) [a, b] (a * b)
  | divide {l r a b} (h : ¬ b == 0) : Succeeds frame (.binary .divide l r) [a, b] (a / b)
  | measure {f : Builtin} {es ids ps v} (hf : f ≠ .map) (hcount : ids.length = f.arity)
      (hps : List.Forall₂ (fun id p => place frame id = .ok p) ids ps)
      (h : f.measure ps = .ok v) : Succeeds frame (.call f.name es) ids v
  | map {es v a b c d w} (h : interpolate v a b c d = .ok w) :
      Succeeds frame (.call "map" es) [v, a, b, c, d] w

inductive Fails (frame : Frame) : Expr → List Float → EvalError → Prop
  | unknownVariable {name} (h : coordinateOf? name = none) :
      Fails frame (.variable name) [] (.unknownVariable name)
  | manyDigits {name digits axis} (hname : coordinateOf? name = some (digits, axis))
      (h : Breakdown.digitLimit < digits.length) :
      Fails frame (.variable name) [] (.breakdown (.tooManyDigits digits.length))
  | largeNumber {name digits axis} (hname : coordinateOf? name = some (digits, axis))
      (hfew : digits.length ≤ Breakdown.digitLimit)
      (h : Binary64.overflow ≤ numberOfDigits digits) :
      Fails frame (.variable name) [] (.breakdown .tooLarge)
  | invalidLandmark {name digits axis id x} (hname : coordinateOf? name = some (digits, axis))
      (hfew : digits.length ≤ Breakdown.digitLimit)
      (hid : floatOfInt (numberOfDigits digits) = .ok id) (h : place frame id = .error x) :
      Fails frame (.variable name) [] x
  /-- Only a minus is known as an operator with a single operand. -/
  | unknownSign {op e values} (h : op ≠ .subtract) :
      Fails frame (.unary op e) values (.unknownNode "Unary")
  | divisionByZero {l r a b} (h : b == 0) :
      Fails frame (.binary .divide l r) [a, b] .divisionByZero
  | unknownOperator {symbol l r a b} :
      Fails frame (.binary (.other symbol) l r) [a, b] (.unknownOperator symbol)
  | unknownFunction {name es values} (h : ∀ f : Builtin, name ≠ f.name) :
      Fails frame (.call name es) values (.unknownFunction name)
  | argumentCount {f : Builtin} {es values} (h : values.length ≠ f.arity) :
      Fails frame (.call f.name es) values (.argumentCount f)
  | invalidLandmarks {f : Builtin} {es ids} (hf : f ≠ .map) (hcount : ids.length = f.arity)
      (h : ∃ id ∈ ids, ∀ p, place frame id ≠ .ok p) :
      Fails frame (.call f.name es) ids (.invalidLandmarks ids)
  | noMeasure {f : Builtin} {es ids ps x} (hf : f ≠ .map) (hcount : ids.length = f.arity)
      (hps : List.Forall₂ (fun id p => place frame id = .ok p) ids ps)
      (h : f.measure ps = .error x) : Fails frame (.call f.name es) ids x
  | emptyRange {es values} (h : EmptyRange values) :
      Fails frame (.call "map" es) values (.breakdown .emptyRange)
  | unknownNode {kind} : Fails frame (.unknown kind) [] (.unknownNode kind)

end Expr

variable {frame : Frame} {x : EvalError} {v : Float}

theorem Operator.apply_eq_ok_iff {op : Operator} {l r : Expr} {a b : Float} :
    op.apply a b = .ok v ↔ Expr.Succeeds frame (.binary op l r) [a, b] v := by
  constructor
  · intro h
    cases op with
    | add =>
      cases h
      exact .add
    | subtract =>
      cases h
      exact .subtract
    | multiply =>
      cases h
      exact .multiply
    | divide =>
      rw [apply] at h
      split at h
      · cases h
      · next hb =>
        cases h
        exact .divide hb
    | other symbol => cases h
  · intro h
    cases h with
    | add | subtract | multiply => rfl
    | divide hb => exact if_neg hb

theorem Operator.apply_eq_error_iff {op : Operator} {l r : Expr} {a b : Float} :
    op.apply a b = .error x ↔ Expr.Fails frame (.binary op l r) [a, b] x := by
  constructor
  · intro h
    cases op with
    | divide =>
      rw [apply] at h
      split at h
      · next hb =>
        cases h
        exact .divisionByZero hb
      · cases h
    | other symbol =>
      cases h
      exact .unknownOperator
    | _ => cases h
  · intro h
    cases h with
    | divisionByZero hb => exact if_pos hb
    | unknownOperator => rfl

/-- A variable is read in four steps: its name, its digits, its number and its landmark. -/
theorem variableValue_of_coordinateOf {name : String} {digits : List Nat} {axis : Axis}
    (hname : coordinateOf? name = some (digits, axis)) :
    variableValue name frame = do
      let n ← (Integer.ofDigits digits).mapError .breakdown
      let id ← (floatOfInt n).mapError .breakdown
      let p ← place frame id
      return axis.coordinate p := by
  rw [variableValue, hname]
  simp only [← landmark_bind_world]

theorem ofDigits_of_le {digits : List Nat} (h : digits.length ≤ Breakdown.digitLimit) :
    Integer.ofDigits digits = .ok (numberOfDigits digits) := if_neg (by omega)

theorem variableValue_eq_ok_iff {name : String} :
    variableValue name frame = .ok v ↔ Expr.Succeeds frame (.variable name) [] v := by
  constructor
  · intro h
    cases hname : coordinateOf? name with
    | none =>
      rw [variableValue, hname] at h
      cases h
    | some da =>
      obtain ⟨digits, axis⟩ := da
      rw [variableValue_of_coordinateOf hname] at h
      obtain ⟨n, hn, h⟩ := bind_eq_ok_iff.1 h
      obtain ⟨id, hid, h⟩ := bind_eq_ok_iff.1 h
      obtain ⟨p, hp, h⟩ := bind_eq_ok_iff.1 h
      cases h
      have hn := mapError_eq_ok_iff.1 hn
      unfold Integer.ofDigits at hn
      split at hn
      · cases hn
      · next hfew =>
        cases hn
        exact .variable hname (by omega) (mapError_eq_ok_iff.1 hid) hp
  · intro h
    cases h with
    | «variable» hname hfew hid hp =>
      rw [variableValue_of_coordinateOf hname, ofDigits_of_le hfew]
      refine bind_eq_ok_iff.2 ⟨_, rfl, bind_eq_ok_iff.2 ⟨_, mapError_eq_ok_iff.2 hid, ?_⟩⟩
      exact bind_eq_ok_iff.2 ⟨_, hp, rfl⟩

theorem variableValue_eq_error_iff {name : String} :
    variableValue name frame = .error x ↔ Expr.Fails frame (.variable name) [] x := by
  constructor
  · intro h
    cases hname : coordinateOf? name with
    | none =>
      rw [variableValue, hname] at h
      cases h
      exact .unknownVariable hname
    | some da =>
      obtain ⟨digits, axis⟩ := da
      rw [variableValue_of_coordinateOf hname] at h
      by_cases hfew : digits.length ≤ Breakdown.digitLimit
      · rw [ofDigits_of_le hfew] at h
        rcases bind_eq_error_iff.1 h with h | ⟨n, hn, h⟩
        · cases h
        cases hn
        rcases bind_eq_error_iff.1 h with h | ⟨id, hid, h⟩
        · obtain ⟨b, hb, rfl⟩ := mapError_eq_error_iff.1 h
          obtain ⟨rfl, hlarge⟩ := (floatOfInt_eq_error_iff _).1 hb
          exact .largeNumber hname hfew hlarge
        · rcases bind_eq_error_iff.1 h with h | ⟨p, -, h⟩
          · exact .invalidLandmark hname hfew (mapError_eq_ok_iff.1 hid) h
          · cases h
      · rw [Integer.ofDigits, if_pos (by omega)] at h
        cases h
        exact .manyDigits hname (by omega)
  · intro h
    cases h with
    | unknownVariable hname => rw [variableValue, hname]
    | manyDigits hname hmany =>
      rw [variableValue_of_coordinateOf hname, Integer.ofDigits, if_pos hmany]
      rfl
    | largeNumber hname hfew hlarge =>
      rw [variableValue_of_coordinateOf hname, ofDigits_of_le hfew]
      refine bind_eq_error_iff.2 (.inr ⟨_, rfl, bind_eq_error_iff.2 (.inl ?_)⟩)
      exact mapError_eq_error_iff.2 ⟨_, (floatOfInt_eq_error_iff _).2 ⟨rfl, hlarge⟩, rfl⟩
    | invalidLandmark hname hfew hid hp =>
      rw [variableValue_of_coordinateOf hname, ofDigits_of_le hfew]
      refine bind_eq_error_iff.2 (.inr ⟨_, rfl, ?_⟩)
      refine bind_eq_error_iff.2 (.inr ⟨_, mapError_eq_ok_iff.2 hid, ?_⟩)
      exact bind_eq_error_iff.2 (.inl hp)

theorem call_of_name (f : Builtin) (values : List Float) :
    call f.name values frame = f.apply values frame := by
  rw [call, Builtin.ofName_eq_some_iff.2 rfl]

theorem call_eq_ok_iff {name : String} {es : List Expr} {values : List Float} :
    call name values frame = .ok v ↔ Expr.Succeeds frame (.call name es) values v := by
  constructor
  · intro h
    cases hname : Builtin.ofName? name with
    | none =>
      rw [call, hname] at h
      cases h
    | some f =>
      obtain rfl := Builtin.ofName_eq_some_iff.1 hname
      rw [call_of_name] at h
      by_cases hcount : values.length = f.arity
      · by_cases hf : f = .map
        · subst hf
          obtain ⟨_, a, b, c, d, rfl⟩ := Builtin.exists_of_arity_map hcount
          exact .map (mapError_eq_ok_iff.1 h)
        · rw [Builtin.apply_of_length hf hcount] at h
          obtain ⟨ps, hps, h⟩ := bind_eq_ok_iff.1 h
          exact .measure hf hcount (places_eq_ok_iff.1 hps) h
      · rw [Builtin.apply_of_length_ne hcount] at h
        cases h
  · intro h
    cases h with
    | measure hf hcount hps h =>
      rw [call_of_name, Builtin.apply_of_length hf hcount]
      exact bind_eq_ok_iff.2 ⟨_, places_eq_ok_iff.2 hps, h⟩
    | map h => exact mapError_eq_ok_iff.2 h

theorem call_eq_error_iff {name : String} {es : List Expr} {values : List Float} :
    call name values frame = .error x ↔ Expr.Fails frame (.call name es) values x := by
  constructor
  · intro h
    cases hname : Builtin.ofName? name with
    | none =>
      rw [call, hname] at h
      cases h
      refine .unknownFunction fun f heq => ?_
      rw [Builtin.ofName_eq_some_iff.2 heq] at hname
      cases hname
    | some f =>
      obtain rfl := Builtin.ofName_eq_some_iff.1 hname
      rw [call_of_name] at h
      by_cases hcount : values.length = f.arity
      · by_cases hf : f = .map
        · subst hf
          obtain ⟨_, a, b, c, d, rfl⟩ := Builtin.exists_of_arity_map hcount
          obtain ⟨y, hy, rfl⟩ := mapError_eq_error_iff.1 h
          obtain ⟨rfl, hrange⟩ := interpolate_eq_error_iff.1 hy
          exact .emptyRange ⟨_, _, _, _, _, rfl, hrange⟩
        · rw [Builtin.apply_of_length hf hcount] at h
          rcases bind_eq_error_iff.1 h with h | ⟨ps, hps, h⟩
          · obtain ⟨rfl, hid⟩ := places_eq_error_iff.1 h
            exact .invalidLandmarks hf hcount hid
          · exact .noMeasure hf hcount (places_eq_ok_iff.1 hps) h
      · rw [Builtin.apply_of_length_ne hcount] at h
        cases h
        exact .argumentCount hcount
  · intro h
    cases h with
    | unknownFunction h =>
      cases hname : Builtin.ofName? name with
      | none => rw [call, hname]
      | some f => exact absurd (Builtin.ofName_eq_some_iff.1 hname) (h f)
    | argumentCount h => rw [call_of_name, Builtin.apply_of_length_ne h]
    | invalidLandmarks hf hcount h =>
      rw [call_of_name, Builtin.apply_of_length hf hcount]
      exact bind_eq_error_iff.2 (.inl (places_eq_error_iff.2 ⟨rfl, h⟩))
    | noMeasure hf hcount hps h =>
      rw [call_of_name, Builtin.apply_of_length hf hcount]
      exact bind_eq_error_iff.2 (.inr ⟨_, places_eq_ok_iff.2 hps, h⟩)
    | emptyRange h => exact call_eq_breakdown_iff.2 ⟨rfl, rfl, h⟩

namespace Expr

theorem operate_eq_ok_iff {e : Expr} {values : List Float}
    (hcount : values.length = e.operands.length) :
    e.operate frame values = .ok v ↔ Succeeds frame e values v := by
  cases e with
  | number w =>
    obtain rfl := List.length_eq_zero_iff.1 hcount
    constructor
    · intro h
      cases h
      exact .number
    · intro h
      cases h
      rfl
  | «variable» name =>
    obtain rfl := List.length_eq_zero_iff.1 hcount
    exact variableValue_eq_ok_iff
  | unary op operand =>
    obtain ⟨w, rfl⟩ := List.length_eq_one_iff.1 hcount
    constructor
    · intro h
      cases op with
      | subtract =>
        cases h
        exact .minus
      | _ => cases h
    · intro h
      cases h
      rfl
  | binary op left right =>
    obtain ⟨a, b, rfl⟩ := List.length_eq_two.1 hcount
    exact Operator.apply_eq_ok_iff
  | call name arguments => exact call_eq_ok_iff
  | unknown kind =>
    constructor
    · intro h
      cases h
    · intro h
      cases h

theorem operate_eq_error_iff {e : Expr} {values : List Float}
    (hcount : values.length = e.operands.length) :
    e.operate frame values = .error x ↔ Fails frame e values x := by
  cases e with
  | number w =>
    constructor
    · intro h
      cases h
    · intro h
      cases h
  | «variable» name =>
    obtain rfl := List.length_eq_zero_iff.1 hcount
    exact variableValue_eq_error_iff
  | unary op operand =>
    obtain ⟨w, rfl⟩ := List.length_eq_one_iff.1 hcount
    constructor
    · intro h
      by_cases hsign : (Expr.unary op operand).HasUnknownSign
      · rw [operate_of_hasUnknownSign hsign] at h
        cases h
        exact .unknownSign hsign
      · obtain rfl := Decidable.not_not.1 hsign
        cases h
    · intro h
      cases h with
      | unknownSign hsign => exact operate_of_hasUnknownSign (e := .unary op operand) hsign _
  | binary op left right =>
    obtain ⟨a, b, rfl⟩ := List.length_eq_two.1 hcount
    exact Operator.apply_eq_error_iff
  | call name arguments => exact call_eq_error_iff
  | unknown kind =>
    obtain rfl := List.length_eq_zero_iff.1 hcount
    constructor
    · intro h
      cases h
      exact .unknownNode
    · intro h
      cases h
      rfl

end Expr
end RobotHand.Formula
