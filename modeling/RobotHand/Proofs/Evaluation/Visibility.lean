import RobotHand.Formula.Position
import RobotHand.Proofs.Evaluation.Operations
import RobotHand.Proofs.Evaluation.Related

/-! What formulas see of a frame: the places in the world of the landmarks of one hand, and nothing
else. More of them never change a value that was there before. -/
namespace RobotHand.Formula

/-- A number stands for no landmark of any hand, or for one and the same index in all of them. -/
theorem findLandmark_cases (id : Float) : (∀ ls, findLandmark? id ls = none) ∨
    ∃ n < Landmark.count, ∀ ls, findLandmark? id ls = ls[n]? := by
  unfold findLandmark?
  cases (Binary64.ofFloat id).toInt? with
  | none => exact .inl fun _ => rfl
  | some i =>
    cases i with
    | negSucc m => exact .inl fun _ => rfl
    | ofNat n =>
      by_cases hn : n < Landmark.count
      · exact .inr ⟨n, hn, fun _ => if_pos hn⟩
      · exact .inl fun _ => if_neg hn

theorem place_of_none {ls : List Landmark} {id : Float} (h : findLandmark? id ls = none) :
    place (some ls) id = .error (.invalidLandmark id true) := by
  rw [place, landmark, h]
  rfl

theorem place_of_some {ls : List Landmark} {id : Float} {l : Landmark}
    (h : findLandmark? id ls = some l) : place (some ls) id = .ok l.world := by
  rw [place, landmark, h]
  rfl

theorem place_eq_error {id : Float} {x : EvalError} (h : place frame id = .error x) :
    ∃ visible, x = .invalidLandmark id visible := by
  cases frame with
  | none =>
    cases h
    exact ⟨false, rfl⟩
  | some ls =>
    cases hl : findLandmark? id ls with
    | none =>
      rw [place_of_none hl] at h
      cases h
      exact ⟨true, rfl⟩
    | some l =>
      rw [place_of_some hl] at h
      cases h

theorem place_eq_place_iff {ls ls' : List Landmark} {id : Float} :
    place (some ls) id = place (some ls') id ↔
      (findLandmark? id ls).map Landmark.world = (findLandmark? id ls').map Landmark.world := by
  cases h : findLandmark? id ls with
  | none =>
    cases h' : findLandmark? id ls' with
    | none => simp [place_of_none h, place_of_none h']
    | some l' => simp [place_of_none h, place_of_some h']
  | some l =>
    cases h' : findLandmark? id ls' with
    | none => simp [place_of_some h, place_of_none h']
    | some l' => simp [place_of_some h, place_of_some h']

theorem place_eq_unseen_iff {frame : Frame} {id : Float} :
    place frame id = place none id ↔ frame = none := by
  cases frame with
  | none => simp
  | some ls =>
    cases h : findLandmark? id ls with
    | none =>
      rw [place_of_none h]
      simp [place, landmark]
    | some l =>
      rw [place_of_some h]
      simp [place, landmark]

/-- Evaluation reads a frame only through the places of landmarks. -/
theorem Expr.Agree.of_place {r : Congruence} {f g : Frame}
    (h : ∀ id, r.Rel (place f id) (place g id)) : Agree r f g where
  variableValue name := by
    cases hname : coordinateOf? name with
    | none =>
      rw [Formula.variableValue, Formula.variableValue, hname]
      exact r.refl _
    | some da =>
      rw [variableValue_of_coordinateOf hname, variableValue_of_coordinateOf hname]
      exact r.bind (r.refl _) fun n => r.bind (r.refl _) fun id => r.bind (h id) fun p => r.refl _
  call name values := by
    have hplaces : r.Rel (places f values) (places g values) :=
      r.mapError _ (r.mapM (List.forall₂_same.2 fun id _ => h id))
    cases hname : Builtin.ofName? name with
    | none =>
      rw [Formula.call, Formula.call, hname]
      exact r.refl _
    | some b =>
      obtain rfl := Builtin.ofName_eq_some_iff.1 hname
      rw [call_of_name, call_of_name]
      by_cases hcount : values.length = b.arity
      · by_cases hb : b = .map
        · subst hb
          obtain ⟨_, _, _, _, _, rfl⟩ := Builtin.exists_of_arity_map hcount
          exact r.refl _
        · rw [Builtin.apply_of_length hb hcount, Builtin.apply_of_length hb hcount]
          exact r.bind hplaces fun _ => r.refl _
      · rw [Builtin.apply_of_length_ne hcount, Builtin.apply_of_length_ne hcount]
        exact r.refl _

/-- Both frames show no hand, or as many landmarks of one at the same places in the world. What is
drawn on the screen, the names and landmarks beyond those of a hand may differ. -/
inductive SameHand : Frame → Frame → Prop
  | unseen : SameHand none none
  | seen {ls ls' : List Landmark}
      (hcount : min ls.length Landmark.count = min ls'.length Landmark.count)
      (hworld : ∀ n < Landmark.count, ∀ l l', ls[n]? = some l → ls'[n]? = some l' →
        l.world = l'.world) :
      SameHand (some ls) (some ls')

theorem sameHand_some_iff {ls ls' : List Landmark} : SameHand (some ls) (some ls') ↔
    ∀ n < Landmark.count, ls[n]?.map Landmark.world = ls'[n]?.map Landmark.world := by
  constructor
  · intro h n hn
    cases h with
    | seen hcount hworld =>
      have hboth : n < ls.length ↔ n < ls'.length := by omega
      by_cases hlength : n < ls.length
      · have hl := List.getElem?_eq_getElem hlength
        have hl' := List.getElem?_eq_getElem (hboth.1 hlength)
        rw [hl, hl', Option.map_some, Option.map_some, hworld n hn _ _ hl hl']
      · rw [List.getElem?_eq_none (Nat.le_of_not_lt hlength),
          List.getElem?_eq_none (Nat.le_of_not_lt (mt hboth.2 hlength))]
  · intro h
    have hboth : ∀ n < Landmark.count, n < ls.length ↔ n < ls'.length := fun n hn => by
      have hnone : ls[n]?.map Landmark.world = none ↔ ls'[n]?.map Landmark.world = none := by
        rw [h n hn]
      rw [Option.map_eq_none_iff, Option.map_eq_none_iff, List.getElem?_eq_none_iff,
        List.getElem?_eq_none_iff] at hnone
      omega
    constructor
    · have hleft := hboth ls.length
      have hright := hboth ls'.length
      omega
    · intro n hn l l' hl hl'
      have hmap := h n hn
      rw [hl, hl'] at hmap
      exact Option.some.inj hmap

theorem SameHand.place_eq {f g : Frame} (h : SameHand f g) (id : Float) :
    place f id = place g id := by
  cases f with
  | none => cases h; rfl
  | some ls =>
    cases g with
    | none => cases h
    | some ls' =>
      rw [place_eq_place_iff]
      rcases findLandmark_cases id with hnone | ⟨n, hn, hfind⟩
      · rw [hnone, hnone]
      · rw [hfind, hfind]
        exact sameHand_some_iff.1 h n hn

def indexDigits (n : Nat) : List Nat := if n < 10 then [n] else [n / 10, n % 10]

def Axis.letter : Axis → Char
  | x => 'x'
  | y => 'y'
  | z => 'z'

/-- The variable for a coordinate of a landmark. -/
def coordinateName (n : Nat) (axis : Axis) : String :=
  String.ofList ('L' :: axis.letter :: '[' :: (indexDigits n).map Nat.digitChar ++ [']'])

theorem coordinateOf_coordinateName (axis : Axis) : ∀ n : Fin Landmark.count,
    coordinateOf? (coordinateName n axis) = some (indexDigits n, axis) := by
  cases axis <;> decide +kernel

theorem indexDigits_spec : ∀ n : Fin Landmark.count,
    (indexDigits n).length ≤ Breakdown.digitLimit ∧
      ∃ id, floatOfInt (numberOfDigits (indexDigits n)) = .ok id ∧
        (Binary64.ofFloat id).toInt? = some (n : Nat) := by
  decide +kernel

/-- Every landmark of a hand has a number, and every coordinate of it a variable. -/
theorem exists_coordinate {n : Nat} (hn : n < Landmark.count) :
    ∃ id, (∀ ls, findLandmark? id ls = ls[n]?) ∧ ∀ axis frame,
      variableValue (coordinateName n axis) frame = axis.coordinate <$> place frame id := by
  obtain ⟨hfew, id, hid, hindex⟩ := indexDigits_spec ⟨n, hn⟩
  refine ⟨id, fun ls => ?_, fun axis frame => ?_⟩
  · rw [findLandmark?, hindex]
    exact if_pos hn
  · rw [variableValue_of_coordinateOf (coordinateOf_coordinateName axis ⟨n, hn⟩),
      ofDigits_of_le hfew]
    change (floatOfInt (numberOfDigits (indexDigits n))).mapError _ >>= _ = _
    rw [hid]
    rfl

theorem eq_of_coordinates {x y : Except EvalError Point}
    (h : ∀ axis : Axis, axis.coordinate <$> x = axis.coordinate <$> y) : x = y := by
  cases x with
  | error d =>
    cases y with
    | error e => exact congrArg Except.error (Except.error.inj (h .x))
    | ok q => cases h .x
  | ok p =>
    cases y with
    | error e => cases h .x
    | ok q =>
      have hcoordinate := fun axis => Except.ok.inj (h axis)
      rw [Except.ok.injEq, Point.mk.injEq]
      exact ⟨hcoordinate .x, hcoordinate .y, hcoordinate .z⟩

/-- Frames on which all variables agree show the same hand. -/
theorem sameHand_of_variableValue {f g : Frame}
    (h : ∀ name, variableValue name f = variableValue name g) : SameHand f g := by
  have hplace : ∀ n < Landmark.count, ∃ id, (∀ ls, findLandmark? id ls = ls[n]?) ∧
      place f id = place g id := fun n hn => by
    obtain ⟨id, hfind, hvalue⟩ := exists_coordinate hn
    refine ⟨id, hfind, eq_of_coordinates fun axis => ?_⟩
    rw [← hvalue, ← hvalue, h]
  obtain ⟨id, -, hid⟩ := hplace 0 (by decide)
  cases f with
  | none =>
    obtain rfl := place_eq_unseen_iff.1 hid.symm
    exact .unseen
  | some ls =>
    cases g with
    | none => cases place_eq_unseen_iff.1 hid
    | some ls' =>
      refine sameHand_some_iff.2 fun n hn => ?_
      obtain ⟨id, hfind, hid⟩ := hplace n hn
      rwa [place_eq_place_iff, hfind, hfind] at hid

/-- Formulas see nothing but where the landmarks of a hand are in the world, and all of that. -/
theorem formulas_see_only_the_hand {f g : Frame} :
    (SameHand f g ↔ ∀ (e : Expr) (room : Nat), e.evaluate f room = e.evaluate g room) ∧
      (SameHand f g → ∀ formula low high,
        position formula f low high = position formula g low high) := by
  have hevaluate : SameHand f g → ∀ (e : Expr) (room : Nat),
      e.evaluate f room = e.evaluate g room := fun h =>
    Expr.related_of_agree (.of_place (r := .same) h.place_eq)
  refine ⟨⟨hevaluate, fun h => sameHand_of_variableValue fun name => ?_⟩, fun h => ?_⟩
  · have hname := h (.variable name) 0
    rwa [Expr.evaluate, Expr.evaluate] at hname
  · intro formula low high
    simp only [position, value, hevaluate h]

/-- A hand drawn elsewhere, with a landmark too many. -/
theorem formulas_see_only_the_hand_drawn :
    let world : Point := ⟨1, 2, 3⟩
    let f : Frame := some (List.replicate 21 ⟨⟨0, 0, 0⟩, world, none⟩)
    let g : Frame := some (List.replicate 22 ⟨⟨5, 6, 7⟩, world, some "WRIST"⟩)
    SameHand f g ∧ position (some "L[20].z * 100") f 0 500 = .ok 300 ∧
      position (some "L[20].z * 100") g 0 500 = .ok 300 := by
  intro world f g
  have hsame : SameHand f g := by
    refine .seen (by decide) fun n _ l l' hl hl' => ?_
    rw [List.eq_of_mem_replicate (List.mem_of_getElem? hl),
      List.eq_of_mem_replicate (List.mem_of_getElem? hl')]
  have hf : position (some "L[20].z * 100") f 0 500 = .ok 300 := by decide +kernel
  exact ⟨hsame, hf, formulas_see_only_the_hand.2 hsame _ 0 500 ▸ hf⟩

/-- A frame with a hand where there was none, or with further landmarks after the others. -/
inductive Extends : Frame → Frame → Prop
  | unseen (frame : Frame) : Extends none frame
  | more (ls further : List Landmark) : Extends (some ls) (some (ls ++ further))

variable {f g : Frame}

theorem Extends.place_eq_ok (h : Extends f g) {id : Float} {p : Point}
    (hp : place f id = .ok p) : place g id = .ok p := by
  cases h with
  | unseen => cases hp
  | more ls further =>
    rcases findLandmark_cases id with hnone | ⟨n, hn, hfind⟩
    · rw [place_of_none (hnone ls)] at hp
      cases hp
    cases hl : ls[n]? with
    | none =>
      rw [place_of_none ((hfind ls).trans hl)] at hp
      cases hp
    | some l =>
      have hkept : (ls ++ further)[n]? = some l := by
        rw [List.getElem?_append_left (List.getElem?_eq_some_iff.1 hl).1, hl]
      rw [place_of_some ((hfind ls).trans hl)] at hp
      rw [place_of_some ((hfind _).trans hkept), hp]

theorem Extends.evaluate_eq_ok (h : Extends f g) {e : Expr} {room : Nat} {v : Float}
    (hv : e.evaluate f room = .ok v) : e.evaluate g room = .ok v :=
  have hagree : Expr.Agree .keeping f g := .of_place fun _ _ => h.place_eq_ok
  Expr.related_of_agree hagree e room v hv

theorem Extends.position_eq_ok (h : Extends f g) {formula : Option String} {low high p : Int}
    (hp : position formula f low high = .ok p) : position formula g low high = .ok p := by
  obtain ⟨v, hv, hsettle⟩ := bind_eq_ok_iff.1 hp
  obtain ⟨e, he, hv⟩ := bind_eq_ok_iff.1 hv
  have hkept := h.evaluate_eq_ok (mapError_eq_ok_iff.1 hv)
  refine bind_eq_ok_iff.2 ⟨v, bind_eq_ok_iff.2 ⟨e, he, ?_⟩, hsettle⟩
  exact mapError_eq_ok_iff.2 hkept

/-- A value stays the same once more landmarks are seen, and so does a position. -/
theorem further_landmarks_change_no_result :
    (∀ (e : Expr) (room : Nat) (v : Float), e.evaluate none room = .ok v →
        ∀ frame, e.evaluate frame room = .ok v) ∧
      (∀ (e : Expr) (room : Nat) (v : Float) (ls : List Landmark),
        e.evaluate (some ls) room = .ok v →
          ∀ further, e.evaluate (some (ls ++ further)) room = .ok v) ∧
      ∀ formula (ls : List Landmark) (n : Nat) (low high p : Int),
        position formula (some (ls.take n)) low high = .ok p →
          position formula (some ls) low high = .ok p := by
  refine ⟨fun e room v hv frame => ?_, fun e room v ls hv further => ?_, ?_⟩
  · exact (Extends.unseen frame).evaluate_eq_ok hv
  · exact (Extends.more ls further).evaluate_eq_ok hv
  · intro formula ls n low high p hp
    have hextends := Extends.more (ls.take n) (ls.drop n)
    rw [List.take_append_drop] at hextends
    exact hextends.position_eq_ok hp

/-- A sum that no hand is needed for, a coordinate, and a position from the first of two
landmarks. -/
theorem further_landmarks_change_no_result_two :
    let sum : Expr := .binary .add (.number 1) (.number 2)
    let near : Landmark := ⟨default, ⟨1, 2, 3⟩, none⟩
    let far : Landmark := ⟨default, ⟨4, 5, 6⟩, none⟩
    sum.evaluate none nestingLimit = .ok 3 ∧ sum.evaluate (some [far]) nestingLimit = .ok 3 ∧
      (Expr.variable "Ly[0]").evaluate (some [near]) nestingLimit = .ok 2 ∧
      (Expr.variable "Ly[0]").evaluate (some [near, far]) nestingLimit = .ok 2 ∧
      position (some "Lx[0] * 90") (some [near]) 0 180 = .ok 90 ∧
      position (some "Lx[0] * 90") (some [near, far]) 0 180 = .ok 90 := by
  intro sum near far
  have hsum : sum.evaluate none nestingLimit = .ok 3 := by decide +kernel
  have hy : (Expr.variable "Ly[0]").evaluate (some [near]) nestingLimit = .ok 2 := by
    decide +kernel
  have hposition : position (some "Lx[0] * 90") (some [near]) 0 180 = .ok 90 := by decide +kernel
  obtain ⟨hunseen, hmore, htruncated⟩ := further_landmarks_change_no_result
  exact ⟨hsum, hunseen sum _ 3 hsum (some [far]), hy, hmore _ _ 2 [near] hy [far], hposition,
    htruncated _ [near, far] 1 0 180 90 hposition⟩

end RobotHand.Formula
