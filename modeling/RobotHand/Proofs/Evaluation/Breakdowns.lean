import RobotHand.Proofs.Evaluation.Settling

/-! Formulas whose evaluation breaks down, instead of failing with an error of the formula. -/
namespace RobotHand.Formula

open Binary64

/-- Interpolation divides by zero only when a NaN is mapped from a range of width zero. -/
theorem interpolate_eq_error_iff {v a b c d : Float} {x : Breakdown} :
    interpolate v a b c d = .error x ↔
      x = .emptyRange ∧ ofFloat v = nan ∧ (ofFloat a).isFinite ∧ (a == b) := by
  unfold interpolate
  have hzero := sub_beq_zero b a
  constructor
  · intro h
    by_cases hva : v ≤ a
    · rw [if_pos hva] at h
      cases h
    by_cases hbv : b ≤ v
    · rw [if_neg hva, if_pos hbv] at h
      cases h
    by_cases hba : b - a == 0
    · rw [if_neg hva, if_neg hbv, if_pos hba] at h
      obtain ⟨hb, ha, heq⟩ := hzero.1 hba
      have hna := ne_nan_of_isFinite ha
      have hnb := ne_nan_of_isFinite hb
      -- Were the value a number, one of the two comparisons would have held.
      refine ⟨(Except.error.inj h).symm, Decidable.byContradiction fun hv => ?_, ha,
        beq_iff.2 ⟨hna, hnb, heq.symm⟩⟩
      rw [le_iff hv hna] at hva
      rw [le_iff hnb hv] at hbv
      omega
    · rw [if_neg hva, if_neg hbv, if_neg hba] at h
      cases h
  · rintro ⟨rfl, hv, ha, hab⟩
    have hba := hzero.2 ⟨isFinite_of_beq hab ha, ha, (beq_iff.1 hab).2.2.symm⟩
    rw [if_neg (not_le_of_nan (.inl hv)), if_neg (not_le_of_nan (.inr hv)), if_pos hba]

theorem landmark_ne_breakdown (id : Float) (frame : Frame) (b : Breakdown) :
    landmark id frame ≠ .error (.breakdown b) := by
  unfold landmark
  split
  · nofun
  · split <;> nofun

/-- A variable breaks down on a number with too many digits, or too large for a float. -/
theorem variableValue_eq_breakdown_iff {name : String} {frame : Frame} {b : Breakdown} :
    variableValue name frame = .error (.breakdown b) ↔
      ∃ digits axis, coordinateOf? name = some (digits, axis) ∧
        (Breakdown.digitLimit < digits.length ∧ b = .tooManyDigits digits.length ∨
          digits.length ≤ Breakdown.digitLimit ∧ overflow ≤ numberOfDigits digits ∧
            b = .tooLarge) := by
  unfold variableValue
  cases coordinateOf? name with
  | none => simp
  | some da =>
    obtain ⟨digits, axis⟩ := da
    have hdigits : (∃ digits' axis', some (digits, axis) = some (digits', axis') ∧
        (Breakdown.digitLimit < digits'.length ∧ b = .tooManyDigits digits'.length ∨
          digits'.length ≤ Breakdown.digitLimit ∧ overflow ≤ numberOfDigits digits' ∧
            b = .tooLarge)) ↔
        Breakdown.digitLimit < digits.length ∧ b = .tooManyDigits digits.length ∨
          digits.length ≤ Breakdown.digitLimit ∧ overflow ≤ numberOfDigits digits ∧
            b = .tooLarge :=
      ⟨fun ⟨_, _, heq, h⟩ => by cases heq; exact h, fun h => ⟨digits, axis, rfl, h⟩⟩
    rw [hdigits]
    dsimp only
    unfold Integer.ofDigits
    by_cases hlong : Breakdown.digitLimit < digits.length
    · rw [if_pos hlong]
      constructor
      · intro h
        cases h
        exact .inl ⟨hlong, rfl⟩
      · rintro (⟨-, rfl⟩ | ⟨hshort, -⟩)
        · rfl
        · omega
    · rw [if_neg hlong]
      have hfloat := @floatOfInt_eq_error_iff (numberOfDigits digits)
      change (floatOfInt (numberOfDigits digits)).mapError _ >>= _ = _ ↔ _
      rw [bind_eq_error_iff, mapError_eq_error_iff]
      constructor
      · rintro (⟨b', h, heq⟩ | ⟨id, -, h⟩)
        · cases heq
          obtain ⟨rfl, hlarge⟩ := hfloat.1 h
          exact .inr ⟨by omega, hlarge, rfl⟩
        · rcases bind_eq_error_iff.1 h with h | ⟨l, -, h⟩
          · exact absurd h (landmark_ne_breakdown id frame b)
          · cases h
      · rintro (⟨hlong', -⟩ | ⟨-, hlarge, rfl⟩)
        · exact absurd hlong' hlong
        · exact .inl ⟨_, hfloat.2 ⟨rfl, hlarge⟩, rfl⟩

theorem landmarksOf_ne_breakdown (ids : List Float) (frame : Frame) (b : Breakdown) :
    landmarksOf ids frame ≠ .error (.breakdown b) := by
  intro h
  obtain ⟨_, -, h⟩ := mapError_eq_error_iff.1 h
  cases h

/-- The arguments of a linear map from a range of width zero, on a NaN. -/
def EmptyRange (arguments : List Float) : Prop :=
  ∃ v a b c d, arguments = [v, a, b, c, d] ∧
    ofFloat v = nan ∧ (ofFloat a).isFinite ∧ (a == b) = true

theorem apply_eq_breakdown_iff {f : Builtin} {arguments : List Float} {frame : Frame}
    {b : Breakdown} :
    f.apply arguments frame = .error (.breakdown b) ↔
      f = .map ∧ b = .emptyRange ∧ EmptyRange arguments := by
  constructor
  · intro h
    unfold Builtin.apply at h
    split at h
    · rcases bind_eq_error_iff.1 h with h | ⟨ls, -, h⟩
      · exact absurd h (landmarksOf_ne_breakdown _ _ _)
      · split at h <;> cases h
    · rcases bind_eq_error_iff.1 h with h | ⟨ls, -, h⟩
      · exact absurd h (landmarksOf_ne_breakdown _ _ _)
      · split at h
        · split at h <;> cases h
        · cases h
    · obtain ⟨x, hx, heq⟩ := mapError_eq_error_iff.1 h
      cases heq
      obtain ⟨rfl, hrange⟩ := interpolate_eq_error_iff.1 hx
      exact ⟨rfl, rfl, _, _, _, _, _, rfl, hrange⟩
    · cases h
  · rintro ⟨rfl, rfl, v, a, b, c, d, rfl, hrange⟩
    change (interpolate v a b c d).mapError _ = _
    rw [interpolate_eq_error_iff.2 ⟨rfl, hrange⟩]
    rfl

theorem Builtin.ofName_eq_some_iff {name : String} {f : Builtin} :
    ofName? name = some f ↔ name = f.name := by
  constructor
  · intro h
    have hname := List.find?_some h
    exact (of_decide_eq_true hname).symm
  · rintro rfl
    cases f <;> decide

theorem call_eq_breakdown_iff {name : String} {arguments : List Float} {frame : Frame}
    {b : Breakdown} :
    call name arguments frame = .error (.breakdown b) ↔
      name = "map" ∧ b = .emptyRange ∧ EmptyRange arguments := by
  have hmap : Builtin.ofName? name = some .map ↔ name = "map" := Builtin.ofName_eq_some_iff
  rw [← hmap]
  unfold call
  cases Builtin.ofName? name with
  | none => exact ⟨nofun, fun h => nomatch h.1⟩
  | some f =>
    rw [Option.some.injEq]
    exact apply_eq_breakdown_iff

theorem operator_ne_breakdown (op : Operator) (x y : Float) (b : Breakdown) :
    op.apply x y ≠ .error (.breakdown b) := by
  cases op with
  | divide =>
    unfold Operator.apply
    dsimp only
    split <;> nofun
  | _ => nofun

/-- The first node to fail, in the order of evaluation, breaks down; the number is the room for
nesting. -/
inductive BreaksDown (frame : Frame) : Nat → Expr → Breakdown → Prop
  /-- More digits than are read. -/
  | manyDigits {room name digits axis} (h : coordinateOf? name = some (digits, axis))
      (hmany : Breakdown.digitLimit < digits.length) :
      BreaksDown frame room (.variable name) (.tooManyDigits digits.length)
  /-- A number beyond every float. -/
  | largeNumber {room name digits axis} (h : coordinateOf? name = some (digits, axis))
      (hfew : digits.length ≤ Breakdown.digitLimit) (hlarge : overflow ≤ numberOfDigits digits) :
      BreaksDown frame room (.variable name) .tooLarge
  /-- A NaN is mapped from a range of width zero. -/
  | emptyRange {room arguments values}
      (h : Expr.evaluateAll frame room arguments = .ok values) (hrange : EmptyRange values) :
      BreaksDown frame (room + 2) (.call "map" arguments) .emptyRange
  | operand {room e b} (h : BreaksDown frame room e b) :
      BreaksDown frame (room + 1) (.unary .subtract e) b
  | left {room op l r b} (h : BreaksDown frame room l b) :
      BreaksDown frame (room + 1) (.binary op l r) b
  | right {room op l r b x} (hl : l.evaluate frame room = .ok x) (h : BreaksDown frame room r b) :
      BreaksDown frame (room + 1) (.binary op l r) b
  | argument {room name before e after b xs}
      (hbefore : Expr.evaluateAll frame room before = .ok xs) (h : BreaksDown frame room e b) :
      BreaksDown frame (room + 2) (.call name (before ++ e :: after)) b

/-- The first of several trees to fail breaks down. -/
def FirstBreaksDown (frame : Frame) (room : Nat) (es : List Expr) (b : Breakdown) : Prop :=
  ∃ before e after xs, es = before ++ e :: after ∧
    Expr.evaluateAll frame room before = .ok xs ∧ BreaksDown frame room e b

theorem descend_bind_eq_breakdown_iff {α : Type} {weight room : Nat}
    {f : Nat → Except EvalError α} {b : Breakdown} :
    (Expr.descend weight room >>= f) = .error (.breakdown b) ↔
      ∃ below, room = below + weight ∧ f below = .error (.breakdown b) := by
  unfold Expr.descend
  by_cases h : room < weight
  · rw [if_pos h]
    refine ⟨nofun, ?_⟩
    rintro ⟨below, rfl, -⟩
    omega
  · rw [if_neg h]
    constructor
    · intro hf
      exact ⟨room - weight, by omega, hf⟩
    · rintro ⟨below, rfl, hf⟩
      have hsub : below + weight - weight = below := Nat.add_sub_cancel ..
      rw [hsub]
      exact hf

theorem evaluateAll_cons_eq_ok_iff {frame : Frame} {room : Nat} {e : Expr} {es : List Expr}
    {xs : List Float} :
    Expr.evaluateAll frame room (e :: es) = .ok xs ↔ ∃ v vs, e.evaluate frame room = .ok v ∧
      Expr.evaluateAll frame room es = .ok vs ∧ xs = v :: vs := by
  rw [Expr.evaluateAll, bind_eq_ok_iff]
  constructor
  · rintro ⟨v, hv, h⟩
    obtain ⟨vs, hvs, h⟩ := bind_eq_ok_iff.1 h
    exact ⟨v, vs, hv, hvs, (Except.ok.inj h).symm⟩
  · rintro ⟨v, vs, hv, hvs, rfl⟩
    exact ⟨v, hv, bind_eq_ok_iff.2 ⟨vs, hvs, rfl⟩⟩

mutual

/-- Evaluation breaks down exactly when the first node to fail does. -/
theorem evaluate_eq_breakdown_iff (frame : Frame) (room : Nat) (e : Expr) (b : Breakdown) :
    e.evaluate frame room = .error (.breakdown b) ↔ BreaksDown frame room e b := by
  match e with
  | .number v =>
    rw [Expr.evaluate]
    exact ⟨nofun, nofun⟩
  | .unknown kind =>
    rw [Expr.evaluate]
    exact ⟨nofun, nofun⟩
  | .variable name =>
    rw [Expr.evaluate, variableValue_eq_breakdown_iff]
    constructor
    · rintro ⟨digits, axis, h, ⟨hmany, rfl⟩ | ⟨hfew, hlarge, rfl⟩⟩
      · exact .manyDigits h hmany
      · exact .largeNumber h hfew hlarge
    · intro h
      cases h with
      | manyDigits h hmany => exact ⟨_, _, h, .inl ⟨hmany, rfl⟩⟩
      | largeNumber h hfew hlarge => exact ⟨_, _, h, .inr ⟨hfew, hlarge, rfl⟩⟩
  | .unary op operand =>
    have ih := fun below => evaluate_eq_breakdown_iff frame below operand b
    rw [Expr.evaluate]
    by_cases hop : op = .subtract
    · rw [if_pos hop, descend_bind_eq_breakdown_iff]
      constructor
      · rintro ⟨below, rfl, h⟩
        rcases bind_eq_error_iff.1 h with h | ⟨v, -, h⟩
        · exact hop ▸ .operand ((ih below).1 h)
        · cases h
      · intro h
        cases h with
        | operand h => exact ⟨_, rfl, bind_eq_error_iff.2 (.inl ((ih _).2 h))⟩
    · rw [if_neg hop]
      refine ⟨nofun, fun h => ?_⟩
      cases h
      exact absurd rfl hop
  | .binary op left right =>
    have ihl := fun below => evaluate_eq_breakdown_iff frame below left b
    have ihr := fun below => evaluate_eq_breakdown_iff frame below right b
    rw [Expr.evaluate, descend_bind_eq_breakdown_iff]
    constructor
    · rintro ⟨below, rfl, h⟩
      rcases bind_eq_error_iff.1 h with h | ⟨x, hx, h⟩
      · exact .left ((ihl below).1 h)
      · rcases bind_eq_error_iff.1 h with h | ⟨y, -, h⟩
        · exact .right hx ((ihr below).1 h)
        · exact absurd h (operator_ne_breakdown op x y b)
    · intro h
      cases h with
      | left h => exact ⟨_, rfl, bind_eq_error_iff.2 (.inl ((ihl _).2 h))⟩
      | right hl h =>
        exact ⟨_, rfl, bind_eq_error_iff.2
          (.inr ⟨_, hl, bind_eq_error_iff.2 (.inl ((ihr _).2 h))⟩)⟩
  | .call name arguments =>
    have ih := fun below => evaluateAll_eq_breakdown_iff frame below arguments b
    rw [Expr.evaluate, descend_bind_eq_breakdown_iff]
    constructor
    · rintro ⟨below, rfl, h⟩
      rcases bind_eq_error_iff.1 h with h | ⟨values, hvalues, h⟩
      · obtain ⟨before, e, after, xs, rfl, hbefore, h⟩ := (ih below).1 h
        exact .argument hbefore h
      · obtain ⟨rfl, rfl, hrange⟩ := call_eq_breakdown_iff.1 h
        exact .emptyRange hvalues hrange
    · intro h
      cases h with
      | emptyRange hvalues hrange =>
        exact ⟨_, rfl, bind_eq_error_iff.2
          (.inr ⟨_, hvalues, call_eq_breakdown_iff.2 ⟨rfl, rfl, hrange⟩⟩)⟩
      | argument hbefore h =>
        exact ⟨_, rfl, bind_eq_error_iff.2 (.inl ((ih _).2 ⟨_, _, _, _, rfl, hbefore, h⟩))⟩

/-- Evaluating several trees breaks down exactly when the first one to fail does. -/
theorem evaluateAll_eq_breakdown_iff (frame : Frame) (room : Nat) (es : List Expr)
    (b : Breakdown) :
    Expr.evaluateAll frame room es = .error (.breakdown b) ↔ FirstBreaksDown frame room es b := by
  match es with
  | [] =>
    rw [Expr.evaluateAll]
    refine ⟨nofun, ?_⟩
    rintro ⟨before, e, after, xs, heq, -⟩
    exact absurd heq.symm (by simp)
  | e :: es =>
    have ihe := evaluate_eq_breakdown_iff frame room e b
    have ihes := evaluateAll_eq_breakdown_iff frame room es b
    rw [Expr.evaluateAll, bind_eq_error_iff, ihe]
    constructor
    · rintro (h | ⟨v, hv, h⟩)
      · exact ⟨[], e, es, [], rfl, by rw [Expr.evaluateAll], h⟩
      · rcases bind_eq_error_iff.1 h with h | ⟨vs, -, h⟩
        · obtain ⟨before, e', after, xs, rfl, hbefore, h⟩ := ihes.1 h
          exact ⟨e :: before, e', after, v :: xs, rfl,
            evaluateAll_cons_eq_ok_iff.2 ⟨v, xs, hv, hbefore, rfl⟩, h⟩
        · cases h
    · rintro ⟨before, e', after, xs, heq, hbefore, h⟩
      cases before with
      | nil =>
        cases heq
        exact .inl h
      | cons a before =>
        cases heq
        obtain ⟨v, vs, hv, hvs, -⟩ := evaluateAll_cons_eq_ok_iff.1 hbefore
        exact .inr ⟨v, hv, bind_eq_error_iff.2 (.inl (ihes.2 ⟨_, _, _, _, rfl, hvs, h⟩))⟩

end

/-- An error of the formula, in contrast to a breakdown of the arithmetic. -/
def Failure.IsFormulaError (f : Failure) : Prop := ∀ b, f ≠ .evaluation (.breakdown b)

/-- A formula whose tree breaks down on a frame. -/
def Breaks (formula : Option String) (frame : Frame) (b : Breakdown) : Prop :=
  ∃ e, compile formula = .ok e ∧ BreaksDown frame nestingLimit e b

theorem compile_ne_breakdown (formula : Option String) (b : Breakdown) :
    compile formula ≠ .error (.evaluation (.breakdown b)) := by
  unfold compile
  split
  · nofun
  · split
    · nofun
    · intro h
      obtain ⟨_, -, h⟩ := mapError_eq_error_iff.1 h
      cases h

theorem settle_ne_breakdown {v : Float} {low high : Int} (hl : low.natAbs ≤ 2 ^ 51)
    (hh : high.natAbs ≤ 2 ^ 51) (b : Breakdown) : settle v low high ≠ .error (.breakdown b) := by
  by_cases hv : (Binary64.ofFloat v).isFinite
  · obtain ⟨p, hp, -⟩ := settle_finite hl hh hv
    rw [hp]
    nofun
  · rw [settle_not_finite low high hv]
    nofun

/-- A position is a breakdown exactly when the tree of its formula breaks down. -/
theorem position_eq_breakdown_iff {formula : Option String} {frame : Frame} {low high : Int}
    (hl : low.natAbs ≤ 2 ^ 51) (hh : high.natAbs ≤ 2 ^ 51) {b : Breakdown} :
    position formula frame low high = .error (.evaluation (.breakdown b)) ↔
      Breaks formula frame b := by
  unfold position value
  rw [bind_eq_error_iff]
  constructor
  · rintro (h | ⟨v, -, h⟩)
    · rcases bind_eq_error_iff.1 h with h | ⟨e, he, h⟩
      · exact absurd h (compile_ne_breakdown formula b)
      · obtain ⟨_, h, heq⟩ := mapError_eq_error_iff.1 h
        cases heq
        exact ⟨e, he, (evaluate_eq_breakdown_iff frame nestingLimit e b).1 h⟩
    · obtain ⟨_, h, heq⟩ := mapError_eq_error_iff.1 h
      cases heq
      exact absurd h (settle_ne_breakdown hl hh b)
  · rintro ⟨e, he, h⟩
    refine .inl (bind_eq_error_iff.2 (.inr ⟨e, he, mapError_eq_error_iff.2 ⟨_, ?_, rfl⟩⟩))
    exact (evaluate_eq_breakdown_iff frame nestingLimit e b).2 h

/-- A position is an integer or an error of the formula, unless the formula breaks down. -/
theorem position_checked_iff {formula : Option String} {frame : Frame} {low high : Int}
    (hl : low.natAbs ≤ 2 ^ 51) (hh : high.natAbs ≤ 2 ^ 51) :
    ((∃ p, position formula frame low high = .ok p) ∨
        ∃ f, position formula frame low high = .error f ∧ f.IsFormulaError) ↔
      ∀ b, ¬ Breaks formula frame b := by
  have hiff := fun b => @position_eq_breakdown_iff formula frame low high hl hh b
  constructor
  · rintro (⟨p, h⟩ | ⟨f, h, hf⟩) b hb
    · rw [(hiff b).2 hb] at h
      cases h
    · rw [(hiff b).2 hb] at h
      exact hf b (Except.error.inj h).symm
  · intro hnone
    cases h : position formula frame low high with
    | ok p => exact .inl ⟨p, rfl⟩
    | error f => exact .inr ⟨f, rfl, fun b hb => hnone b ((hiff b).1 (hb ▸ h))⟩

end RobotHand.Formula
