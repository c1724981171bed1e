import RobotHand.Proofs.Evaluation.Nesting

/-! Relations between the outcomes of two evaluations. A relation that sequencing keeps holds of two
trees with the same root as soon as it holds of their operands, so that one argument serves for two
frames, for two limits and for two trees. -/
namespace RobotHand.Formula

/-- A relation between outcomes that is kept by sequencing and by a common error in place of the
errors of both. -/
structure Congruence where
  Rel {α : Type} : Except EvalError α → Except EvalError α → Prop
  refl {α : Type} (x : Except EvalError α) : Rel x x
  bind {α β : Type} {x y : Except EvalError α} {f g : α → Except EvalError β} :
    Rel x y → (∀ a, Rel (f a) (g a)) → Rel (x >>= f) (y >>= g)
  mapError {α : Type} {x y : Except EvalError α} (e : EvalError) :
    Rel x y → Rel (x.mapError fun _ => e) (y.mapError fun _ => e)

namespace Congruence

def same : Congruence where
  Rel x y := x = y
  refl _ := rfl
  bind := by
    rintro _ _ x _ f g rfl h
    rw [funext h]
  mapError := by
    rintro _ x _ e rfl
    rfl

/-- The same value, or errors that look the same. -/
def alike {γ : Type} (view : EvalError → γ) : Congruence where
  Rel x y := x.mapError view = y.mapError view
  refl _ := rfl
  bind {α β x y f g} h hfg := by
    cases x with
    | error d =>
      cases y with
      | error e => exact congrArg Except.error (Except.error.inj h)
      | ok b => cases h
    | ok a =>
      cases y with
      | error e => cases h
      | ok b =>
        cases h
        exact hfg a
  mapError {α x y} e h := by
    cases x with
    | error d =>
      cases y with
      | error d' => rfl
      | ok b => cases h
    | ok a =>
      cases y with
      | error d => cases h
      | ok b =>
        cases h
        rfl

/-- A value stays; an error may become anything. -/
def keeping : Congruence where
  Rel x y := ∀ a, x = .ok a → y = .ok a
  refl _ _ h := h
  bind {α β x y f g} h hfg b hb := by
    obtain ⟨a, ha, hb⟩ := bind_eq_ok_iff.1 hb
    exact bind_eq_ok_iff.2 ⟨a, h a ha, hfg a b hb⟩
  mapError e h a ha := mapError_eq_ok_iff.2 (h a (mapError_eq_ok_iff.1 ha))

variable (r : Congruence)

/-- Related parts have related lists of results. -/
theorem mapM {α β δ : Type} {f : α → Except EvalError δ} {g : β → Except EvalError δ}
    {xs : List α} {ys : List β} (h : List.Forall₂ (fun x y => r.Rel (f x) (g y)) xs ys) :
    r.Rel (xs.mapM f) (ys.mapM g) := by
  induction h with
  | nil => exact r.refl _
  | cons hxy _ ih =>
    rw [List.mapM_cons, List.mapM_cons]
    apply r.bind hxy
    intro a
    apply r.bind ih
    intro as
    exact r.refl _

end Congruence

namespace Expr

/-- Trees that are equal but for the operands of their roots. -/
inductive SameRoot : Expr → Expr → Prop
  | number {v} : SameRoot (.number v) (.number v)
  | variable {name} : SameRoot (.variable name) (.variable name)
  | unary {op e e'} : SameRoot (.unary op e) (.unary op e')
  | binary {op l l' r r'} : SameRoot (.binary op l r) (.binary op l' r')
  | call {name es es'} : SameRoot (.call name es) (.call name es')
  | unknown {kind} : SameRoot (.unknown kind) (.unknown kind)

theorem SameRoot.refl (e : Expr) : SameRoot e e := by
  cases e <;> constructor

theorem SameRoot.weight_eq {e e' : Expr} (h : SameRoot e e') : e.weight = e'.weight := by
  cases h <;> rfl

theorem SameRoot.hasUnknownSign_iff {e e' : Expr} (h : SameRoot e e') :
    e.HasUnknownSign ↔ e'.HasUnknownSign := by
  cases h <;> exact Iff.rfl

/-- The frames of two evaluations have related landmarks, as far as the operations look at them. -/
structure Agree (r : Congruence) (f g : Frame) : Prop where
  variableValue (name : String) : r.Rel (variableValue name f) (variableValue name g)
  call (name : String) (values : List Float) :
    r.Rel (Formula.call name values f) (Formula.call name values g)

theorem Agree.refl (r : Congruence) (frame : Frame) : Agree r frame frame :=
  ⟨fun _ => r.refl _, fun _ _ => r.refl _⟩

variable {r : Congruence} {f g : Frame} {e e' : Expr}

theorem Agree.operate (hfg : Agree r f g) (hroot : SameRoot e e') (values : List Float) :
    r.Rel (e.operate f values) (e'.operate g values) := by
  cases hroot with
  | «variable» => exact hfg.variableValue _
  | call => exact hfg.call _ _
  | _ => exact r.refl _

/-- Related operands of the same root have related trees. -/
theorem related_of_operands (hfg : Agree r f g) {below below' : Nat} (hroot : SameRoot e e')
    (h : List.Forall₂ (fun o o' => r.Rel (o.evaluate f below) (o'.evaluate g below'))
      e.operands e'.operands) :
    r.Rel (e.evaluate f (below + e.weight)) (e'.evaluate g (below' + e'.weight)) := by
  by_cases hsign : e.HasUnknownSign
  · have hsign' := hroot.hasUnknownSign_iff.1 hsign
    rw [evaluate_of_hasUnknownSign hsign, evaluate_of_hasUnknownSign hsign']
    exact r.refl _
  · have hsign' := mt hroot.hasUnknownSign_iff.2 hsign
    rw [evaluate_eq_operate hsign, evaluate_eq_operate hsign']
    exact r.bind (r.mapM h) (hfg.operate hroot)

/-- Without room for its root, the outcome of a tree rests on the root alone. -/
theorem evaluate_of_lt (hroot : SameRoot e e') {room : Nat} (h : room < e.weight) :
    e.evaluate f room = e'.evaluate g room := by
  by_cases hsign : e.HasUnknownSign
  · have hsign' := hroot.hasUnknownSign_iff.1 hsign
    rw [evaluate_of_hasUnknownSign hsign, evaluate_of_hasUnknownSign hsign']
  · have hsign' := mt hroot.hasUnknownSign_iff.2 hsign
    rw [evaluate_eq_tooDeep hsign h, evaluate_eq_tooDeep hsign' (hroot.weight_eq ▸ h)]

/-- On frames that agree, every tree has related outcomes, whatever the limit. -/
theorem related_of_agree (hfg : Agree r f g) (e : Expr) (room : Nat) :
    r.Rel (e.evaluate f room) (e.evaluate g room) := by
  induction e using operand_induction generalizing room with
  | h e ih =>
    by_cases hroom : room < e.weight
    · rw [evaluate_of_lt (.refl e) hroom]
      exact r.refl _
    · obtain ⟨below, rfl⟩ := Nat.exists_eq_add_of_le' (Nat.le_of_not_lt hroom)
      apply related_of_operands hfg (.refl e)
      exact List.forall₂_same.2 fun o ho => ih o ho below

/-- Two limits that leave enough room are as good as one another. -/
theorem evaluate_eq_of_depth_le {room room' : Nat} (frame : Frame) (h : e.depth ≤ room)
    (h' : e.depth ≤ room') : e.evaluate frame room = e.evaluate frame room' := by
  induction e using operand_induction generalizing room room' with
  | h e ih =>
    obtain ⟨below, rfl, hbelow⟩ := depth_le_iff.1 h
    obtain ⟨below', rfl, hbelow'⟩ := depth_le_iff.1 h'
    apply related_of_operands (.refl .same frame) (.refl e)
    exact List.forall₂_same.2 fun o ho => ih o ho (hbelow o ho) (hbelow' o ho)

/-- The outcome of a tree that has all the room that it needs. -/
def unlimited (frame : Frame) (e : Expr) : Except EvalError Float := e.evaluate frame e.depth

theorem evaluate_of_depth_le {room : Nat} (frame : Frame) (h : e.depth ≤ room) :
    e.evaluate frame room = e.unlimited frame :=
  evaluate_eq_of_depth_le frame h le_rfl

theorem unlimited_eq_operate (h : ¬ e.HasUnknownSign) (frame : Frame) :
    e.unlimited frame = e.operands.mapM (unlimited frame) >>= e.operate frame := by
  obtain ⟨below, hdepth, hbelow⟩ := depth_le_iff.1 e.depth.le_refl
  have hoperands : e.operands.mapM (evaluate frame below) = e.operands.mapM (unlimited frame) :=
    Congruence.same.mapM (List.forall₂_same.2 fun o ho => evaluate_of_depth_le frame (hbelow o ho))
  rw [unlimited, hdepth, evaluate_eq_operate h, hoperands]

/-- A limit only takes outcomes away. -/
theorem evaluate_eq_tooDeep_or (e : Expr) (frame : Frame) (room : Nat) :
    e.evaluate frame room = .error .tooDeep ∨ e.evaluate frame room = e.unlimited frame := by
  induction e using operand_induction generalizing room with
  | h e ih =>
    by_cases hsign : e.HasUnknownSign
    · right
      rw [unlimited, evaluate_of_hasUnknownSign hsign, evaluate_of_hasUnknownSign hsign]
    · by_cases hroom : room < e.weight
      · exact .inl (evaluate_eq_tooDeep hsign hroom)
      · obtain ⟨below, rfl⟩ := Nat.exists_eq_add_of_le' (Nat.le_of_not_lt hroom)
        rw [evaluate_eq_operate hsign, unlimited_eq_operate hsign]
        rcases mapM_eq_error_or fun o ho => ih o ho below with hdeep | hsame
        · exact .inl (bind_eq_error_iff.2 (.inl hdeep))
        · exact .inr (by rw [hsame])

theorem unlimited_minus (e : Expr) (frame : Frame) :
    (unary .subtract e).unlimited frame = (e.unlimited frame).map (- ·) := by
  have hsign : ¬ (unary .subtract e).HasUnknownSign := fun h => h rfl
  rw [unlimited_eq_operate hsign, operands, List.mapM_cons, List.mapM_nil]
  cases e.unlimited frame <;> rfl

theorem unlimited_binary (op : Operator) (l r : Expr) (frame : Frame) :
    (binary op l r).unlimited frame =
      l.unlimited frame >>= fun a => r.unlimited frame >>= fun b => op.apply a b := by
  rw [unlimited_eq_operate id, operands, List.mapM_cons, List.mapM_cons, List.mapM_nil]
  cases l.unlimited frame with
  | error x => rfl
  | ok a => cases r.unlimited frame <;> rfl

end Expr
end RobotHand.Formula
