import RobotHand.Proofs.Evaluation.Related
import RobotHand.Proofs.Evaluation.Strictness

/-! Evaluation is compositional: what stands at a place of a tree may be replaced by anything with
the same outcome, and so by the number that it evaluates to. -/
namespace RobotHand.Formula

/-- A tree with a hole at one place. -/
inductive Context
  | hole
  | unary (op : Operator) (operand : Context)
  | left (op : Operator) (context : Context) (right : Expr)
  | right (op : Operator) (left : Expr) (context : Context)
  | argument (name : String) (before : List Expr) (context : Context) (after : List Expr)

namespace Context

/-- Puts a tree into the hole. -/
def fill : Context → Expr → Expr
  | hole, s => s
  | unary op c, s => .unary op (c.fill s)
  | left op c e, s => .binary op (c.fill s) e
  | right op e c, s => .binary op e (c.fill s)
  | argument name before c after, s => .call name (before ++ c.fill s :: after)

variable {s s' e : Expr} {frame : Frame} {room : Nat}

/-- The contexts that lead to a tree are its occurrences among the nodes. -/
theorem mem_postorder_iff : s ∈ e.postorder ↔ ∃ c : Context, c.fill s = e := by
  constructor
  · intro h
    induction e using Expr.operand_induction with
    | h e ih =>
      rw [Expr.postorder_eq, List.mem_append, List.mem_flatMap, List.mem_singleton] at h
      rcases h with ⟨o, ho, hs⟩ | rfl
      · obtain ⟨c, rfl⟩ := ih o ho hs
        cases e with
        | unary op operand =>
          obtain rfl := List.mem_singleton.1 ho
          exact ⟨.unary op c, rfl⟩
        | binary op left right =>
          rcases List.mem_pair.1 ho with rfl | rfl
          · exact ⟨.left op c right, rfl⟩
          · exact ⟨.right op left c, rfl⟩
        | call name arguments =>
          obtain ⟨before, after, rfl⟩ := List.append_of_mem ho
          exact ⟨.argument name before c after, rfl⟩
        | _ => exact absurd ho List.not_mem_nil
      · exact ⟨.hole, rfl⟩
  · rintro ⟨c, rfl⟩
    induction c with
    | hole => exact Expr.mem_postorder_self s
    | unary op c ih => exact Expr.mem_postorder_of_operand List.mem_cons_self ih
    | left op c e ih => exact Expr.mem_postorder_of_operand List.mem_cons_self ih
    | right op e c ih =>
      exact Expr.mem_postorder_of_operand (List.mem_cons_of_mem _ List.mem_cons_self) ih
    | argument name before c after ih =>
      exact Expr.mem_postorder_of_operand (List.mem_append_right _ List.mem_cons_self) ih

/-- The heaviest path either goes through the hole or beside it. -/
theorem depth_fill (c : Context) :
    ∃ beside above, ∀ s, (c.fill s).depth = max beside (s.depth + above) := by
  induction c with
  | hole => exact ⟨0, 0, fun s => (Nat.zero_max s.depth).symm⟩
  | unary op c ih =>
    obtain ⟨beside, above, h⟩ := ih
    refine ⟨beside + 1, above + 1, fun s => ?_⟩
    rw [fill, Expr.depth, h]
    omega
  | left op c e ih =>
    obtain ⟨beside, above, h⟩ := ih
    refine ⟨max beside e.depth + 1, above + 1, fun s => ?_⟩
    rw [fill, Expr.depth, h]
    omega
  | right op e c ih =>
    obtain ⟨beside, above, h⟩ := ih
    refine ⟨max beside e.depth + 1, above + 1, fun s => ?_⟩
    rw [fill, Expr.depth, h]
    omega
  | argument name before c after ih =>
    obtain ⟨beside, above, h⟩ := ih
    refine ⟨max beside (max (Expr.depthOfAll before) (Expr.depthOfAll after)) + 2, above + 2,
      fun s => ?_⟩
    rw [fill, Expr.depth, Expr.depthOfAll_append, Expr.depthOfAll, h]
    omega

/-- A root passes on how two trees below it are related, all other operands being equal. -/
theorem related_of_operand (r : Congruence) {e e' o o' : Expr} {before after : List Expr}
    (hroot : Expr.SameRoot e e') (he : e.operands = before ++ o :: after)
    (he' : e'.operands = before ++ o' :: after) (hdepth : e.depth ≤ room)
    (hdepth' : e'.depth ≤ room)
    (ho : ∀ {below}, o.depth ≤ below → o'.depth ≤ below →
      r.Rel (o.evaluate frame below) (o'.evaluate frame below)) :
    r.Rel (e.evaluate frame room) (e'.evaluate frame room) := by
  obtain ⟨below, rfl, hbelow⟩ := Expr.depth_le_iff.1 hdepth
  obtain ⟨below', heq, hbelow'⟩ := Expr.depth_le_iff.1 hdepth'
  obtain rfl : below = below' := Nat.add_right_cancel (hroot.weight_eq ▸ heq)
  have hmem : ∀ o, o ∈ before ++ o :: after := fun o =>
    List.mem_append_right _ List.mem_cons_self
  have hsame : ∀ es : List Expr, List.Forall₂
      (fun o o' => r.Rel (o.evaluate frame below) (o'.evaluate frame below)) es es := fun es =>
    List.forall₂_same.2 fun _ _ => r.refl _
  have hchanged := ho (hbelow o (he ▸ hmem o)) (hbelow' o' (he' ▸ hmem o'))
  have hoperands : List.Forall₂
      (fun o o' => r.Rel (o.evaluate frame below) (o'.evaluate frame below))
      e.operands e'.operands := by
    rw [he, he']
    exact List.rel_append (hsame before) (.cons hchanged (hsame after))
  have hroots := Expr.related_of_operands (.refl r frame) hroot hoperands
  rw [← heq] at hroots
  exact hroots

/-- Related trees in the hole of a context give related trees. -/
theorem related_fill (r : Congruence) (c : Context)
    (h : ∀ {below}, s.depth ≤ below → s'.depth ≤ below →
      r.Rel (s.evaluate frame below) (s'.evaluate frame below))
    (hs : (c.fill s).depth ≤ room) (hs' : (c.fill s').depth ≤ room) :
    r.Rel ((c.fill s).evaluate frame room) ((c.fill s').evaluate frame room) := by
  induction c generalizing room with
  | hole => exact h hs hs'
  | unary op c ih => exact related_of_operand r .unary (List.nil_append _).symm rfl hs hs' ih
  | left op c e ih => exact related_of_operand r .binary (List.nil_append _).symm rfl hs hs' ih
  | right op e c ih =>
    exact related_of_operand r .binary List.singleton_append.symm rfl hs hs' ih
  | argument name before c after ih => exact related_of_operand r .call rfl rfl hs hs' ih

/-- What stands at a place may be replaced by a tree with the same outcome, as far as errors are
told apart. -/
theorem equal_outcomes_are_interchangeable {γ : Type} (view : EvalError → γ)
    (hroom : e.depth ≤ room) :
    (s ∈ e.postorder ↔ ∃ c : Context, c.fill s = e) ∧
      ∀ c : Context, c.fill s = e →
        (∀ s', (c.fill s').depth ≤ room →
          (s'.evaluate frame room).mapError view = (s.evaluate frame room).mapError view →
          ((c.fill s').evaluate frame room).mapError view = (e.evaluate frame room).mapError view) ∧
        ∀ v, s.evaluate frame room = .ok v →
          (c.fill (.number v)).evaluate frame room = e.evaluate frame room := by
  refine ⟨mem_postorder_iff, ?_⟩
  rintro c rfl
  obtain ⟨beside, above, hdepth⟩ := depth_fill c
  -- At the place itself there may be less room than at the root, but it is still enough.
  have hplace : ∀ {t below}, (c.fill t).depth ≤ room → t.depth ≤ below →
      t.evaluate frame below = t.evaluate frame room := fun {t below} ht hbelow =>
    Expr.evaluate_eq_of_depth_le frame hbelow (by rw [hdepth] at ht; omega)
  constructor
  · intro s' hroom' hsame
    apply related_fill (.alike view) c _ hroom' hroom
    intro below hs' hs
    rw [hplace hroom' hs', hplace hroom hs]
    exact hsame
  · intro v hv
    have hroom' : (c.fill (.number v)).depth ≤ room := by
      rw [hdepth, Expr.depth]
      rw [hdepth] at hroom
      omega
    apply related_fill .same c _ hroom' hroom
    intro below hnumber hs
    rw [hplace hroom' hnumber, hplace hroom hs, hv, Expr.evaluate]
    rfl

/-- A computed number of a landmark, as the number itself and as another sum. -/
theorem equal_outcomes_are_interchangeable_two :
    let c : Context := .argument "distance" [.number 0] (.unary .subtract .hole) []
    let s : Expr := .binary .add (.number 1) (.number 1)
    let s' : Expr := .binary .subtract (.number 3) (.number 1)
    (c.fill s).depth ≤ nestingLimit ∧ s.evaluate none nestingLimit = .ok 2 ∧
      s'.evaluate none nestingLimit = .ok 2 ∧
      ((c.fill s').evaluate none nestingLimit).mapError EvalError.message =
        ((c.fill s).evaluate none nestingLimit).mapError EvalError.message ∧
      (c.fill (.number 2)).evaluate none nestingLimit = (c.fill s).evaluate none nestingLimit := by
  intro c s s'
  have hroom : (c.fill s).depth ≤ nestingLimit := by decide
  have hs : s.evaluate none nestingLimit = .ok 2 := by decide +kernel
  have hs' : s'.evaluate none nestingLimit = .ok 2 := by decide +kernel
  obtain ⟨hreplace, hnumber⟩ :=
    (equal_outcomes_are_interchangeable EvalError.message hroom).2 c rfl
  refine ⟨hroom, hs, hs', hreplace s' (by decide) ?_, hnumber 2 hs⟩
  rw [hs, hs']

end Context
end RobotHand.Formula
