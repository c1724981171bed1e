import RobotHand.Proofs.Evaluation.Operations

/-! Evaluation is strict: it goes through the nodes of a tree in postorder and stops at the first
one whose operation fails on the values of its operands. -/
namespace RobotHand.Formula.Expr

mutual

/-- The nodes of a tree, operands from left to right before the node that uses them; each node
stands for the tree below it. -/
def postorder : Expr → List Expr
  | .unary op operand => operand.postorder ++ [.unary op operand]
  | .binary op left right => left.postorder ++ (right.postorder ++ [.binary op left right])
  | .call name arguments => postorderOfAll arguments ++ [.call name arguments]
  | e => [e]

def postorderOfAll : List Expr → List Expr
  | [] => []
  | e :: es => e.postorder ++ postorderOfAll es

end

variable {frame : Frame} {e : Expr} {below room : Nat} {v : Float} {x : EvalError}

theorem postorderOfAll_eq_flatMap (es : List Expr) : postorderOfAll es = es.flatMap postorder := by
  induction es with
  | nil => rw [postorderOfAll, List.flatMap_nil]
  | cons e es ih => rw [postorderOfAll, List.flatMap_cons, ih]

theorem postorder_eq (e : Expr) : e.postorder = e.operands.flatMap postorder ++ [e] := by
  cases e with
  | unary op operand => rw [postorder, operands, List.flatMap_singleton]
  | binary op left right =>
    rw [postorder, operands, List.flatMap_cons, List.flatMap_singleton, List.append_assoc]
  | call name arguments => rw [postorder, postorderOfAll_eq_flatMap, operands]
  | _ => rfl

theorem mem_postorder_self (e : Expr) : e ∈ e.postorder := by
  rw [postorder_eq]
  exact List.mem_append_right _ List.mem_cons_self

theorem mem_postorder_of_operand {n o : Expr} (ho : o ∈ e.operands) (hn : n ∈ o.postorder) :
    n ∈ e.postorder := by
  rw [postorder_eq]
  exact List.mem_append_left _ (List.mem_flatMap.2 ⟨o, ho, hn⟩)

/-- A tree has a value if all of its operands have values on which its own operation succeeds. -/
inductive Denotes (frame : Frame) : Expr → Float → Prop
  | node {e vs v} (hvs : List.Forall₂ (Denotes frame) e.operands vs) (h : Succeeds frame e vs v) :
      Denotes frame e v

/-- The operands of a node have values, and on these its own operation fails. -/
def FailsItself (frame : Frame) (n : Expr) (x : EvalError) : Prop :=
  ∃ vs, List.Forall₂ (Denotes frame) n.operands vs ∧ Fails frame n vs x

/-- The first of several nodes that has no value fails itself. -/
def FirstFails (frame : Frame) (ns : List Expr) (x : EvalError) : Prop :=
  ∃ before n after, ns = before ++ n :: after ∧ (∀ m ∈ before, ∃ v, Denotes frame m v) ∧
    FailsItself frame n x

theorem firstFails_nil : ¬ FirstFails frame [] x := by
  rintro ⟨before, n, after, h, -⟩
  exact absurd h.symm (by simp)

theorem firstFails_singleton {n : Expr} : FirstFails frame [n] x ↔ FailsItself frame n x := by
  constructor
  · rintro ⟨before, m, after, h, -, hm⟩
    cases before with
    | nil =>
      cases h
      exact hm
    | cons m' before => simp at h
  · intro h
    exact ⟨[], n, [], rfl, fun _ hm => absurd hm List.not_mem_nil, h⟩

theorem firstFails_append {ns ms : List Expr} : FirstFails frame (ns ++ ms) x ↔
    FirstFails frame ns x ∨ (∀ n ∈ ns, ∃ v, Denotes frame n v) ∧ FirstFails frame ms x := by
  constructor
  · rintro ⟨before, n, after, heq, hbefore, hn⟩
    rcases List.append_eq_append_iff.1 heq with ⟨rest, rfl, rfl⟩ | ⟨rest, rfl, hrest⟩
    · rw [List.forall_mem_append] at hbefore
      exact .inr ⟨hbefore.1, rest, n, after, rfl, hbefore.2, hn⟩
    · cases rest with
      | nil =>
        rw [List.append_nil]
        exact .inr ⟨hbefore, [], n, after, hrest.symm, fun _ hm => absurd hm List.not_mem_nil, hn⟩
      | cons m rest =>
        cases hrest
        exact .inl ⟨before, n, rest, rfl, hbefore, hn⟩
  · rintro (⟨before, n, after, rfl, hbefore, hn⟩ | ⟨hall, before, n, after, rfl, hbefore, hn⟩)
    · exact ⟨before, n, after ++ ms, by simp, hbefore, hn⟩
    · refine ⟨ns ++ before, n, after, by simp, ?_, hn⟩
      exact List.forall_mem_append.2 ⟨hall, hbefore⟩

/-- Evaluation of a node succeeds when it does for the operands and then for the node itself. -/
theorem evaluate_node_eq_ok_iff : e.evaluate frame (below + e.weight) = .ok v ↔
    ∃ vs, e.operands.mapM (evaluate frame below) = .ok vs ∧ Succeeds frame e vs v := by
  have hoperate : ∀ vs, e.operands.mapM (evaluate frame below) = .ok vs →
      (e.operate frame vs = .ok v ↔ Succeeds frame e vs v) := fun vs hvs =>
    operate_eq_ok_iff (mapM_eq_ok_iff.1 hvs).length_eq.symm
  by_cases hsign : e.HasUnknownSign
  · rw [evaluate_of_hasUnknownSign hsign]
    constructor
    · intro h
      cases h
    · rintro ⟨vs, hvs, h⟩
      rw [← hoperate vs hvs, operate_of_hasUnknownSign hsign] at h
      cases h
  · rw [evaluate_eq_operate hsign, bind_eq_ok_iff]
    exact exists_congr fun vs => and_congr_right (hoperate vs)

/-- Evaluation of a node fails when it does for its operands or, if it does not, for the node
itself. An unknown sign is found before its operand is looked at. -/
theorem evaluate_node_eq_error_iff (hsign : ¬ e.HasUnknownSign) :
    e.evaluate frame (below + e.weight) = .error x ↔
      e.operands.mapM (evaluate frame below) = .error x ∨
        ∃ vs, e.operands.mapM (evaluate frame below) = .ok vs ∧ Fails frame e vs x := by
  rw [evaluate_eq_operate hsign, bind_eq_error_iff]
  refine or_congr_right (exists_congr fun vs => and_congr_right fun hvs => ?_)
  exact operate_eq_error_iff (mapM_eq_ok_iff.1 hvs).length_eq.symm

theorem denotes_iff : Denotes frame e v ↔
    ∃ vs, List.Forall₂ (Denotes frame) e.operands vs ∧ Succeeds frame e vs v := by
  constructor
  · rintro ⟨hvs, h⟩
    exact ⟨_, hvs, h⟩
  · rintro ⟨vs, hvs, h⟩
    exact .node hvs h

theorem exists_denote_iff {os : List Expr} : (∃ vs, List.Forall₂ (Denotes frame) os vs) ↔
    ∀ o ∈ os, ∃ v, Denotes frame o v := by
  induction os with
  | nil => simp
  | cons o os ih =>
    rw [List.forall_mem_cons, ← ih]
    simp only [List.forall₂_cons_left_iff]
    constructor
    · rintro ⟨_, v, vs, hv, hvs, rfl⟩
      exact ⟨⟨v, hv⟩, vs, hvs⟩
    · rintro ⟨⟨v, hv⟩, vs, hvs⟩
      exact ⟨v :: vs, v, vs, hv, hvs, rfl⟩

/-- Operands evaluate to the values that they denote if each of them does. -/
theorem mapM_operands_eq_ok_iff {os : List Expr} {vs : List Float}
    (h : ∀ o ∈ os, ∀ v, o.evaluate frame below = .ok v ↔ Denotes frame o v) :
    os.mapM (evaluate frame below) = .ok vs ↔ List.Forall₂ (Denotes frame) os vs := by
  rw [mapM_eq_ok_iff]
  induction os generalizing vs with
  | nil => rw [List.forall₂_nil_left_iff, List.forall₂_nil_left_iff]
  | cons o os ih =>
    rw [List.forall_mem_cons] at h
    simp only [List.forall₂_cons_left_iff, h.1, ih h.2]

/-- With enough room, evaluation gives the value that the rules give. -/
theorem evaluate_eq_ok_iff (h : e.depth ≤ room) :
    e.evaluate frame room = .ok v ↔ Denotes frame e v := by
  induction e using operand_induction generalizing room v with
  | h e ih =>
    obtain ⟨below, rfl, hbelow⟩ := depth_le_iff.1 h
    have hoperands : ∀ vs, e.operands.mapM (evaluate frame below) = .ok vs ↔
        List.Forall₂ (Denotes frame) e.operands vs := fun vs =>
      mapM_operands_eq_ok_iff fun o ho v => ih o ho (hbelow o ho)
    simp only [evaluate_node_eq_ok_iff, hoperands, denotes_iff]

/-- A tree has a value exactly if every node of it has one. -/
theorem denotes_iff_postorder :
    (∃ v, Denotes frame e v) ↔ ∀ n ∈ e.postorder, ∃ v, Denotes frame n v := by
  refine ⟨fun h => ?_, fun h => h e (mem_postorder_self e)⟩
  induction e using operand_induction with
  | h e ih =>
    obtain ⟨v, hv⟩ := h
    obtain ⟨vs, hvs, -⟩ := denotes_iff.1 hv
    rw [postorder_eq, List.forall_mem_append, List.forall_mem_singleton]
    refine ⟨fun n hn => ?_, v, hv⟩
    obtain ⟨o, ho, hn⟩ := List.mem_flatMap.1 hn
    exact ih o ho (exists_denote_iff.1 ⟨vs, hvs⟩ o ho) n hn

/-- Operands fail where the first of their nodes fails if this holds of each of them. -/
theorem mapM_operands_eq_error_iff {os : List Expr}
    (hok : ∀ o ∈ os, ∀ v, o.evaluate frame below = .ok v ↔ Denotes frame o v)
    (herror : ∀ o ∈ os, o.evaluate frame below = .error x ↔ FirstFails frame o.postorder x) :
    os.mapM (evaluate frame below) = .error x ↔ FirstFails frame (os.flatMap postorder) x := by
  induction os with
  | nil =>
    constructor
    · intro h
      cases h
    · intro h
      exact absurd h firstFails_nil
  | cons o os ih =>
    rw [List.forall_mem_cons] at hok herror
    rw [List.mapM_cons, bind_eq_error_iff, herror.1, List.flatMap_cons, firstFails_append,
      ← denotes_iff_postorder]
    refine or_congr_right ?_
    simp only [hok.1, bind_eq_error_iff, ih hok.2 herror.2]
    constructor
    · rintro ⟨v, hv, h | ⟨_, _, h⟩⟩
      · exact ⟨⟨v, hv⟩, h⟩
      · cases h
    · rintro ⟨⟨v, hv⟩, h⟩
      exact ⟨v, hv, .inl h⟩

/-- With enough room, evaluation fails as the first node in postorder whose operation fails. -/
theorem evaluate_eq_error_iff (hsigns : ∀ op o, .unary op o ∈ e.postorder → op = .subtract)
    (h : e.depth ≤ room) :
    e.evaluate frame room = .error x ↔ FirstFails frame e.postorder x := by
  induction e using operand_induction generalizing room with
  | h e ih =>
    obtain ⟨below, rfl, hbelow⟩ := depth_le_iff.1 h
    have hok : ∀ o ∈ e.operands, ∀ v, o.evaluate frame below = .ok v ↔ Denotes frame o v :=
      fun o ho v => evaluate_eq_ok_iff (hbelow o ho)
    have herror := fun o ho => ih o ho
      (fun op o' ho' => hsigns op o' (mem_postorder_of_operand ho ho')) (hbelow o ho)
    have hsign : ¬ e.HasUnknownSign := fun h => by
      cases e with
      | unary op o => exact h (hsigns op o (mem_postorder_self _))
      | _ => exact h
    rw [evaluate_node_eq_error_iff hsign, mapM_operands_eq_error_iff hok herror, postorder_eq,
      firstFails_append, firstFails_singleton]
    simp only [mapM_operands_eq_ok_iff hok]
    refine or_congr_right ⟨fun h => ⟨fun n hn => ?_, h⟩, fun h => h.2⟩
    obtain ⟨vs, hvs, -⟩ := h
    obtain ⟨o, ho, hn⟩ := List.mem_flatMap.1 hn
    exact denotes_iff_postorder.1 (exists_denote_iff.1 ⟨vs, hvs⟩ o ho) n hn

/-- Evaluation succeeds exactly if the operation of every node succeeds on the values of its
operands, and otherwise fails as the first node in postorder whose operation fails, if minus is the
only sign in the tree. -/
theorem evaluation_reports_first_failure
    (hsigns : ∀ op o, .unary op o ∈ e.postorder → op = .subtract) (hroom : e.depth ≤ room) :
    ((∃ v, e.evaluate frame room = .ok v) ↔ ∀ n ∈ e.postorder, ∃ v, Denotes frame n v) ∧
      (∀ v, e.evaluate frame room = .ok v ↔ Denotes frame e v) ∧
      ∀ x, e.evaluate frame room = .error x ↔ FirstFails frame e.postorder x := by
  refine ⟨?_, fun v => evaluate_eq_ok_iff hroom, fun x => evaluate_eq_error_iff hsigns hroom⟩
  simp only [evaluate_eq_ok_iff hroom]
  exact denotes_iff_postorder

/-- A quotient without a value, followed by a call with too few arguments. -/
def twiceWrong : Expr :=
  .binary .add (.unary .subtract (.binary .divide (.number 1) (.number 0)))
    (.call "distance" [.number 1])

theorem evaluation_reports_first_failure_quotient :
    (∀ op o, .unary op o ∈ twiceWrong.postorder → op = .subtract) ∧
      twiceWrong.depth ≤ nestingLimit ∧
      FirstFails none twiceWrong.postorder .divisionByZero ∧
      twiceWrong.evaluate none nestingLimit = .error .divisionByZero := by
  have hsigns : ∀ op o, .unary op o ∈ twiceWrong.postorder → op = .subtract := by
    simp +contextual [twiceWrong, postorder, postorderOfAll]
  have hroom : twiceWrong.depth ≤ nestingLimit := by decide
  have hfirst : FirstFails none twiceWrong.postorder .divisionByZero := by
    refine ⟨[.number 1, .number 0], _, _, rfl, ?_, ⟨[1, 0], ?_, ?_⟩⟩
    · intro m hm
      rcases List.mem_pair.1 hm with rfl | rfl
      · exact ⟨1, .node .nil .number⟩
      · exact ⟨0, .node .nil .number⟩
    · exact .cons (.node .nil .number) (.cons (.node .nil .number) .nil)
    · exact .divisionByZero (by decide +kernel)
  exact ⟨hsigns, hroom, hfirst, ((evaluation_reports_first_failure hsigns hroom).2.2 _).2 hfirst⟩

end RobotHand.Formula.Expr
