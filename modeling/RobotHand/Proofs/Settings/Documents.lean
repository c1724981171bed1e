import RobotHand.Proofs.Json.RoundTrip
import RobotHand.Proofs.Tables
import RobotHand.Settings.Text

/-! Settings are read from their documents, unless a number is not finite. -/
namespace RobotHand

namespace Document

variable {α : Type} {check : Json → Checked α} {v : Json} {a : α}

theorem Checked.all_map_ok (l : List α) : all (l.map .ok) = .ok l := by
  induction l with
  | nil => rfl
  | cons a l ih =>
    rw [List.map_cons, all, ih]
    rfl

/-- A table is read from the object of its entries. -/
theorem table_entries {write : α → Json} (h : ∀ a, check (write a) = .ok a)
    (t : Table String α) :
    table check (.object (t.entries.map fun e => (e.1, write e.2))) = .ok t := by
  have hall : ∀ f : String × α → Checked (String × α), (∀ e, f e = .ok e) →
      Table.ofList <$> Checked.all (t.entries.map f) = .ok t := by
    intro f hf
    rw [funext hf, Checked.all_map_ok]
    change Checked.ok (Table.ofList t.entries) = _
    rw [Table.ofList_entries]
  rw [table, List.map_map]
  apply hall
  intro e
  change (fun a => (e.1, a)) <$> (check (write e.2)).under (.field e.1) = _
  rw [h]
  rfl

theorem optional_of_find {n : Name} {fields : List (String × Json)} (a' : α)
    (hfind : n.find? fields = some v) (h : check v = .ok a) :
    optional n a' check fields = .ok a := by
  rw [optional, hfind]
  change (check v).under (.field n.primary) = .ok a
  rw [h]
  rfl

end Document

theorem TrackedHand.check_name (h : TrackedHand) : TrackedHand.check (.text h.name) = .ok h := by
  cases h <;> rfl

namespace Settings

open Document Json

variable {s : Settings}

theorem nesting_json (s : Settings) : nesting s.json ≤ depthLimit := by
  have hformulas : nestingOfFields (s.formulas.entries.map fun e => (e.1, .text e.2)) ≤ 0 :=
    nestingOfFields_le (List.forall_mem_map.2 fun _ _ => Nat.le_refl 0)
  have hmaxima : nestingOfFields (s.maxima.entries.map fun e => (e.1, .int e.2)) ≤ 0 :=
    nestingOfFields_le (List.forall_mem_map.2 fun _ _ => Nat.le_refl 0)
  have hfields : nesting s.json ≤ 1 + 1 := by
    rw [json, nesting]
    refine Nat.succ_le_succ (nestingOfFields_le ?_)
    simp only [List.forall_mem_cons]
    exact ⟨Nat.zero_le 1, Nat.zero_le 1, Nat.zero_le 1, Nat.zero_le 1,
      Nat.succ_le_succ hformulas, Nat.succ_le_succ hmaxima, fun _ h => absurd h List.not_mem_nil⟩
  exact hfields.trans (by decide)

/-- A number as its text is read: null, if it is not finite. -/
def storedNumber (x : Float) : Json := if (Binary64.ofFloat x).isFinite then .real x else .null

/-- The numbers that are lost, since they are not finite. -/
def lostNumbers (s : Settings) : List Complaint :=
  (if (Binary64.ofFloat s.threshold).isFinite then []
    else [⟨.notReal, [.field "minChangeThreshold"]⟩]) ++
  if (Binary64.ofFloat s.interval).isFinite then [] else [⟨.notReal, [.field "sendInterval"]⟩]

/-- Settings as their document is read. -/
def stored (s : Settings) : Json :=
  .object [("robotIp", .text s.address), ("minChangeThreshold", storedNumber s.threshold),
    ("sendInterval", storedNumber s.interval), ("handToTrack", .text s.hand.name),
    ("formulas", .object (s.formulas.entries.map fun (key, f) => (key, .text f))),
    ("servoMaxValues", .object (s.maxima.entries.map fun (key, m) => (key, .int m)))]

theorem readBack_json (s : Settings) : readBack s.json = s.stored := by
  have hformulas := readBack_object (List.forall_mem_map.2 fun _ _ => rfl :
    ∀ f ∈ s.formulas.entries.map fun e => (e.1, Json.text e.2), readBack f.2 = f.2)
  have hmaxima := readBack_object (List.forall_mem_map.2 fun _ _ => rfl :
    ∀ f ∈ s.maxima.entries.map fun e => (e.1, Json.int e.2), readBack f.2 = f.2)
  rw [json, readBack]
  simp only [readBackFields, hformulas, hmaxima]
  rfl

/-- A number is checked as what it is unless it is lost. -/
theorem optional_storedNumber {α : Type} {n : Name} {fields : List (String × Json)} {x : Float}
    {check : Float → Checked α} {a : α} (default : α)
    (hfind : n.find? fields = some (storedNumber x)) (h : check x = .ok a) :
    Document.optional n default (fun v => (real v).andThen check) fields =
      if (Binary64.ofFloat x).isFinite then .ok a
      else .rejected [⟨.notReal, [.field n.primary]⟩] := by
  unfold storedNumber at hfind
  split at hfind
  · next hfinite =>
    rw [if_pos hfinite]
    exact optional_of_find default hfind h
  · next hlost =>
    rw [if_neg hlost, Document.optional, hfind]
    rfl

theorem check_stored (s : Settings) :
    check s.stored = if s.lostNumbers = [] then .ok s else .rejected s.lostNumbers := by
  have haddress : text (.text s.address) = .ok s.address := rfl
  have hthreshold : Checked.satisfying (0 ≤ ·) .belowMinimum s.threshold =
      .ok ⟨s.threshold, s.threshold_nonneg⟩ := dif_pos s.threshold_nonneg
  have hinterval : Checked.satisfying (0 < ·) .notAboveBound s.interval =
      .ok ⟨s.interval, s.interval_pos⟩ := dif_pos s.interval_pos
  have hformulas := @table_entries _ text Json.text (fun _ => rfl) s.formulas
  have hmaxima := @table_entries _ integer Json.int (fun _ => rfl) s.maxima
  unfold check stored record lostNumbers
  dsimp only
  rw [optional_of_find _ rfl haddress, optional_storedNumber _ rfl hthreshold,
    optional_storedNumber _ rfl hinterval, optional_of_find _ rfl s.hand.check_name,
    optional_of_find _ rfl hformulas, optional_of_find _ rfl hmaxima]
  -- Each number is accepted or lost on both sides.
  by_cases hfirst : (Binary64.ofFloat s.threshold).isFinite
  · by_cases hsecond : (Binary64.ofFloat s.interval).isFinite
    · rw [if_pos hfirst, if_pos hsecond, if_pos hfirst, if_pos hsecond]
      rfl
    · rw [if_pos hfirst, if_neg hsecond, if_pos hfirst, if_neg hsecond]
      rfl
  · by_cases hsecond : (Binary64.ofFloat s.interval).isFinite
    · rw [if_neg hfirst, if_pos hsecond, if_neg hfirst, if_pos hsecond]
      rfl
    · rw [if_neg hfirst, if_neg hsecond, if_neg hfirst, if_neg hsecond]
      rfl

theorem lostNumbers_eq_nil_iff :
    s.lostNumbers = [] ↔
      (Binary64.ofFloat s.threshold).isFinite ∧ (Binary64.ofFloat s.interval).isFinite := by
  unfold lostNumbers
  split <;> split <;> simp [*]

/-- A document gives the settings that were written to it, or complains of the lost numbers. -/
theorem read_document (s : Settings) :
    read s.document = if s.lostNumbers = [] then .ok s else .rejected s.lostNumbers := by
  have hread : Json.read? s.document = some (readBack s.json) :=
    readWithin_print .indented 0 (nesting_json s)
  rw [readBack_json] at hread
  rw [read, Document.read, hread]
  exact check_stored s

end Settings
end RobotHand
