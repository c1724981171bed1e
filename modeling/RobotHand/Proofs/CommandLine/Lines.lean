import RobotHand.CommandLine.Report
import RobotHand.Proofs.Json.Integers

/-! The lines of a dry run tell all commands: what is printed can stand for one recording of changes
only. -/
namespace RobotHand.CommandLine.Report

variable {x : Char} {before before' later later' : List Char} {parts parts' : List String}
  {separator : String} {commands commands' : List Servo.Command}
  {changes changes' : List (List Servo.Command)}

theorem append_cons_inj (h : x ∉ before) (h' : x ∉ before')
    (heq : before ++ x :: later = before' ++ x :: later') : before = before' ∧ later = later' := by
  induction before generalizing before' with
  | nil =>
    cases before' with
    | nil => exact ⟨rfl, (List.cons.inj heq).2⟩
    | cons c cs =>
      obtain ⟨rfl, -⟩ := List.cons.inj heq
      exact absurd List.mem_cons_self h'
  | cons c cs ih =>
    cases before' with
    | nil =>
      obtain ⟨rfl, -⟩ := List.cons.inj heq
      exact absurd List.mem_cons_self h
    | cons c' cs' =>
      obtain ⟨rfl, hrest⟩ := List.cons.inj heq
      obtain ⟨rfl, hlater⟩ :=
        ih (List.not_mem_of_not_mem_cons h) (List.not_mem_of_not_mem_cons h') hrest
      exact ⟨rfl, hlater⟩

/-- Parts that all end in the same way are told apart if no part has the first character of the
end. -/
theorem join_ended_inj (hseparator : separator.toList.head? = some x)
    (h : ∀ part ∈ parts, x ∉ part.toList) (h' : ∀ part ∈ parts', x ∉ part.toList)
    (heq : String.join (parts.map (· ++ separator)) = String.join (parts'.map (· ++ separator))) :
    parts = parts' := by
  obtain ⟨tail, htail⟩ := List.head?_eq_some_iff.1 hseparator
  have hcons : ∀ (part : String) (rest : List String),
      (String.join ((part :: rest).map (· ++ separator))).toList =
        part.toList ++ x :: (tail ++ (String.join (rest.map (· ++ separator))).toList) := by
    intro part rest
    rw [List.map_cons, String.join_cons, String.toList_append, String.toList_append, htail,
      List.append_assoc, List.cons_append]
  induction parts generalizing parts' with
  | nil =>
    cases parts' with
    | nil => rfl
    | cons part' rest' =>
      have hempty := congrArg String.toList heq
      rw [hcons] at hempty
      exact absurd hempty.symm (by simp)
  | cons part rest ih =>
    cases parts' with
    | nil =>
      have hempty := congrArg String.toList heq
      rw [hcons] at hempty
      exact absurd hempty (by simp)
    | cons part' rest' =>
      obtain ⟨hpart, hparts⟩ := List.forall_mem_cons.1 h
      obtain ⟨hpart', hparts'⟩ := List.forall_mem_cons.1 h'
      have hlists := congrArg String.toList heq
      rw [hcons, hcons] at hlists
      obtain ⟨hfirst, hrest⟩ := append_cons_inj hpart hpart' hlists
      rw [String.toList_inj.1 hfirst,
        ih hparts hparts' (String.toList_inj.1 (List.append_cancel_left hrest))]

/-- A separator after the last part, too, makes all parts end alike. -/
theorem intercalate_append (hparts : parts ≠ []) (separator : String) :
    separator.intercalate parts ++ separator = String.join (parts.map (· ++ separator)) := by
  induction parts with
  | nil => exact absurd rfl hparts
  | cons part rest ih =>
    cases rest with
    | nil =>
      rw [String.intercalate_singleton, List.map_singleton, String.join_cons, String.join_nil,
        String.append_empty]
    | cons part' rest =>
      rw [String.intercalate_cons_cons, String.append_assoc, ih (List.cons_ne_nil _ _)]
      exact String.join_cons.symm

def changeText (command : Servo.Command) : String :=
  toString command.id ++ "=" ++ toString command.position

theorem mem_changeText {c : Char} {command : Servo.Command}
    (hc : c ∈ (changeText command).toList) : Json.Token.isWordPart c ∨ c = '=' := by
  rw [changeText, String.toList_append, String.toList_append, List.mem_append,
    List.mem_append] at hc
  rcases hc with (hc | hc) | hc
  · exact .inl (Json.Token.isWordPart_toString _ c hc)
  · exact .inr (List.mem_singleton.1 hc)
  · exact .inl (Json.Token.isWordPart_toString _ c hc)

theorem changeText_injective : Function.Injective changeText := by
  intro command command' heq
  have hlists := congrArg String.toList heq
  simp only [changeText, String.toList_append, List.append_assoc] at hlists
  have hword : ∀ i : Int, '=' ∉ (toString i).toList := fun i hmem =>
    absurd (Json.Token.isWordPart_toString i _ hmem) (by decide)
  obtain ⟨hid, hposition⟩ := append_cons_inj (hword _) (hword _) hlists
  have hid := Int.repr_injective (String.toList_inj.1 hid)
  have hposition := Int.repr_injective (String.toList_inj.1 hposition)
  cases command
  cases command'
  cases hid
  cases hposition
  rfl

/-- The text of a line. -/
theorem changeLine_eq (index : Nat) (commands : List Servo.Command) :
    changeLine index commands = "frame " ++ toString index ++ ": " ++
      if commands = [] then "(no change)" else ", ".intercalate (commands.map changeText) := by
  cases commands with
  | nil => rfl
  | cons command commands => rfl

theorem changeLine_nil (index : Nat) :
    changeLine index [] = "frame " ++ toString index ++ ": " ++ "(no change)" :=
  changeLine_eq index []

theorem changeLine_of_ne_nil (index : Nat) (h : commands ≠ []) :
    changeLine index commands =
      "frame " ++ toString index ++ ": " ++ ", ".intercalate (commands.map changeText) := by
  rw [changeLine_eq, if_neg h]

/-- A part of a line that tells of changes has no comma, unlike the text between two of them. -/
theorem comma_not_mem : ∀ part ∈ commands.map changeText, ',' ∉ part.toList := by
  intro part hpart hmem
  obtain ⟨command, -, rfl⟩ := List.mem_map.1 hpart
  rcases mem_changeText hmem with h | h
  · exact absurd h (by decide)
  · cases h

/-- Some change is told by a character that no line without a change has. -/
theorem intercalate_ne (h : commands ≠ []) :
    ", ".intercalate (commands.map changeText) ≠ "(no change)" := by
  intro heq
  obtain ⟨command, rest, rfl⟩ := List.exists_cons_of_ne_nil h
  have htold : '=' ∈ (", ".intercalate ((command :: rest).map changeText)).toList := by
    have hmem : '=' ∈ (changeText command).toList := by simp [changeText]
    rw [List.map_cons]
    cases rest.map changeText with
    | nil => rwa [String.intercalate_singleton]
    | cons part parts =>
      rw [String.intercalate_cons_cons, String.append_assoc, String.toList_append]
      exact List.mem_append_left _ hmem
  rw [heq] at htold
  exact absurd htold (by decide)

/-- A line tells which commands it is about. -/
theorem changeLine_injective (index : Nat) : Function.Injective (changeLine index) := by
  intro commands commands' heq
  by_cases h : commands = [] <;> by_cases h' : commands' = []
  · rw [h, h']
  · rw [h, changeLine_nil, changeLine_of_ne_nil index h', String.append_right_inj] at heq
    exact absurd heq.symm (intercalate_ne h')
  · rw [h', changeLine_nil, changeLine_of_ne_nil index h, String.append_right_inj] at heq
    exact absurd heq (intercalate_ne h)
  · rw [changeLine_of_ne_nil index h, changeLine_of_ne_nil index h', String.append_right_inj] at heq
    have hended := congrArg (· ++ ", ") heq
    rw [intercalate_append (List.map_eq_nil_iff.not.2 h),
      intercalate_append (List.map_eq_nil_iff.not.2 h')] at hended
    exact List.map_injective_iff.2 changeText_injective
      (join_ended_inj rfl comma_not_mem comma_not_mem hended)

theorem newline_not_mem (index : Nat) (commands : List Servo.Command) :
    '\n' ∉ (changeLine index commands).toList := by
  have hindex : '\n' ∉ (toString index).toList := fun hmem =>
    absurd (Json.Token.isWordPart_toString index _ hmem) (by decide)
  by_cases h : commands = []
  · rw [h, changeLine_nil]
    simp only [String.toList_append, List.mem_append, not_or]
    exact ⟨⟨⟨by decide, hindex⟩, by decide⟩, by decide⟩
  · have hended : '\n' ∉ (", ".intercalate (commands.map changeText) ++ ", ").toList := by
      rw [intercalate_append (List.map_eq_nil_iff.not.2 h), String.toList_join, List.mem_flatMap]
      rintro ⟨part, hpart, hmem⟩
      rw [List.map_map, List.mem_map] at hpart
      obtain ⟨command, -, rfl⟩ := hpart
      rw [Function.comp_apply, String.toList_append, List.mem_append] at hmem
      rcases hmem with hmem | hmem
      · rcases mem_changeText hmem with hword | hmark
        · exact absurd hword (by decide)
        · cases hmark
      · exact absurd hmem (by decide)
    rw [String.toList_append, List.mem_append, not_or] at hended
    rw [changeLine_of_ne_nil index h]
    simp only [String.toList_append, List.mem_append, not_or]
    exact ⟨⟨⟨by decide, hindex⟩, by decide⟩, hended.1⟩

/-- What a dry run prints tells the commands of every frame. -/
theorem lines_changeLine_inj
    (heq : lines (changes.mapIdx changeLine) = lines (changes'.mapIdx changeLine)) :
    changes = changes' := by
  have hline : ∀ changes : List (List Servo.Command),
      ∀ line ∈ changes.mapIdx changeLine, '\n' ∉ line.toList := by
    intro changes line hline
    obtain ⟨index, hindex, rfl⟩ := List.mem_mapIdx.1 hline
    exact newline_not_mem index _
  have hlines := join_ended_inj rfl (hline changes) (hline changes') heq
  refine List.ext_getElem? fun index => ?_
  have hindex := congrArg (fun l : List String => l[index]?) hlines
  rw [List.getElem?_mapIdx, List.getElem?_mapIdx] at hindex
  exact Option.map_injective (changeLine_injective index) hindex

end RobotHand.CommandLine.Report
