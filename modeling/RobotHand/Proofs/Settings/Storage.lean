import RobotHand.Proofs.Settings.Documents
import RobotHand.Proofs.Trees
import RobotHand.Settings.Storage

/-! Which settings are loaded again after they are saved. -/
namespace RobotHand.Settings

open Document FileTree Json

variable {s : Settings} {t t' : FileTree} {p q draft : Path} {text : String}

/-- A settings file with its folders, and without a draft beside it. -/
structure InPlace (t : FileTree) (p : Path) (text : String) : Prop where
  folders : ∀ a ∈ p.parent.ancestry, t.node? a = some .folder
  file : t.node? p = some (.file text)
  no_draft : ∀ draft, p.withSuffix? ".tmp" = some draft → draft ≠ p → t.node? draft = none

theorem node?_parent (h : ∀ a ∈ p.parent.ancestry, t.node? a = some .folder) :
    t.node? p.parent = some .folder := by
  by_cases hnil : p.parent.names = []
  · exact if_pos hnil
  · exact h _ (Path.mem_ancestry hnil)

theorem replace_eq_ok_iff :
    replace t draft p text = (t', .ok ()) ↔
      ∃ written, t.write draft text = .ok written ∧ written.move draft p = .ok t' := by
  unfold replace
  cases t.write draft text with
  | error e => simp
  | ok written =>
    cases hmove : written.move draft p <;> simp [hmove]

/-- A text that replaces a file stands at its path, and the draft is gone. -/
theorem node?_replace (hdraft : draft.names ≠ []) (hp : p.names ≠ [])
    (h : replace t draft p text = (t', .ok ())) (q : Path) :
    t'.node? q = if p = q then some (.file text) else if draft = q then none else t.node? q := by
  obtain ⟨written, hwrite, hmove⟩ := replace_eq_ok_iff.1 h
  obtain ⟨-, rfl⟩ := write_eq_ok_iff.1 hwrite
  obtain ⟨text', htext, -, rfl⟩ := move_eq_ok_iff.1 hmove
  rw [node?_put t hdraft, if_pos rfl] at htext
  cases htext
  split
  · next heq =>
    rw [node?_put t hdraft, heq]
    split <;> rfl
  · rw [node?_put _ hp, node?_erase _ hdraft, node?_put t hdraft]
    split
    · rfl
    · split <;> rfl

theorem save_eq_ok_iff :
    s.save t p = (t', .ok q) ↔ q = p ∧ ∃ u draft, t.makeFolders p.parent = .ok u ∧
      p.withSuffix? ".tmp" = some draft ∧ replace u draft p s.document = (t', .ok ()) := by
  unfold save
  cases t.makeFolders p.parent with
  | error e => simp
  | ok u =>
    cases p.withSuffix? ".tmp" with
    | none => simp
    | some draft =>
      rcases hreplace : replace u draft p s.document with ⟨w, outcome⟩
      cases outcome <;> simp [hreplace, Except.mapError, Except.map, eq_comm, and_comm]

/-- A successful save leaves the file in place. -/
theorem inPlace_of_save (h : s.save t p = (t', .ok q)) : q = p ∧ InPlace t' p s.document := by
  obtain ⟨rfl, u, draft, hfolders, hsuffix, hreplace⟩ := save_eq_ok_iff.1 h
  obtain ⟨hne, hdraft, hlength, hparent⟩ := Path.withSuffix_beside hsuffix
  have hnode := node?_replace hdraft hne hreplace
  refine ⟨rfl, ?_, ?_, ?_⟩
  · intro a ha
    have hshort : a.names.length < q.names.length :=
      (Path.length_of_mem_ancestry ha).trans_lt (Path.length_parent_lt hne)
    rw [hnode, if_neg, if_neg]
    · exact makeFolders_folder hfolders a ha
    · rintro rfl
      omega
    · rintro rfl
      omega
  · rw [hnode, if_pos rfl]
  · intro draft' hsuffix' hother
    cases hsuffix.symm.trans hsuffix'
    rw [hnode, if_neg (Ne.symm hother), if_pos rfl]

/-- Saving settings again whose file is in place changes nothing. -/
theorem save_of_inPlace (h : InPlace t p s.document) (hsuffix : p.withSuffix? ".tmp" = some draft) :
    s.save t p = (t, .ok p) := by
  obtain ⟨hne, hdraft, hlength, hparent⟩ := Path.withSuffix_beside hsuffix
  have hfolder := node?_parent h.folders
  have hfile : t.node? p ≠ some .folder := by
    rw [h.file]
    exact fun heq => by cases heq
  refine save_eq_ok_iff.2 ⟨rfl, t, draft, makeFolders_eq_self h.folders, hsuffix,
    replace_eq_ok_iff.2 ⟨t.put draft (.file s.document), ?_, ?_⟩⟩
  · refine write_eq_ok_iff.2 ⟨admits_eq_ok_iff.2 ⟨hparent ▸ hfolder, ?_⟩, rfl⟩
    -- A file whose own name ends in the suffix of drafts is its own draft.
    by_cases heq : draft = p
    · rw [heq]
      exact hfile
    · rw [h.no_draft draft hsuffix heq]
      exact fun heq => by cases heq
  · refine move_eq_ok_iff.2 ⟨s.document, ?_, admits_eq_ok_iff.2 ⟨?_, ?_⟩, ?_⟩
    · rw [node?_put t hdraft, if_pos rfl]
    · rw [node?_put t hdraft, if_neg, hfolder]
      rintro rfl
      have hshort := Path.length_parent_lt hne
      omega
    · rw [node?_put t hdraft]
      split
      · exact fun heq => by cases heq
      · exact hfile
    · split
      · next heq =>
        rw [heq]
        exact (put_eq_self h.file).symm
      · next heq =>
        rw [erase_put hdraft (h.no_draft draft hsuffix heq)]
        exact (put_eq_self h.file).symm

theorem document_ne_empty (s : Settings) : s.document ≠ "" := by
  intro hempty
  have htext := congrArg String.toList hempty
  simp [document, json, pretty, print] at htext

theorem load_of_inPlace (h : InPlace t p s.document) :
    load t p = if s.lostNumbers = [] then .ok s else .error (.rejected s.lostNumbers) := by
  have hread : t.read p = .ok s.document := read_eq_ok_iff.2 h.file
  unfold load
  rw [hread]
  split
  · next heq => cases heq
  · next heq => cases heq
  · next heq => exact absurd (Except.ok.inj heq) (document_ne_empty s)
  · next heq =>
    cases heq
    rw [read_document]
    split <;> rfl

/-- Settings, such as those that were loaded, are loaded again after they are saved exactly if their
numbers are finite; otherwise each number that is not is refused, since it is saved as null. -/
theorem loaded_settings_are_loaded_again (hsave : s.save t p = (t', .ok q)) :
    (load t' p = .ok s ↔
        (Binary64.ofFloat s.threshold).isFinite ∧ (Binary64.ofFloat s.interval).isFinite) ∧
      ∀ failure, load t' p = .error failure ↔
        ¬ ((Binary64.ofFloat s.threshold).isFinite ∧ (Binary64.ofFloat s.interval).isFinite) ∧
          failure = .rejected s.lostNumbers := by
  obtain ⟨-, hplace⟩ := inPlace_of_save hsave
  rw [load_of_inPlace hplace, ← lostNumbers_eq_nil_iff]
  split
  · next hnone => simp [hnone]
  · next hlost => simp [hlost, eq_comm]

theorem loaded_settings_are_loaded_again_lax :
    let t := FileTree.empty.put (Path.ofText "a.json")
      (.file "\x7b\"sendInterval\":true,\"servoMaxValues\":\x7b\"1\":\"07.0\"\x7d\x7d")
    let q := Path.ofText "b.json"
    ∃ s, load t (Path.ofText "a.json") = .ok s ∧ (s.save t q).2 = .ok q ∧
      load (s.save t q).1 q = .ok s := by
  intro t q
  have hloaded : ∃ s, load t (Path.ofText "a.json") = .ok s ∧ (s.save t q).2 = .ok q ∧
      (Binary64.ofFloat s.threshold).isFinite ∧ (Binary64.ofFloat s.interval).isFinite := by
    decide +kernel
  obtain ⟨s, hload, hsaved, hfinite⟩ := hloaded
  have hsave : s.save t q = ((s.save t q).1, .ok q) := Prod.ext rfl hsaved
  exact ⟨s, hload, hsaved, (loaded_settings_are_loaded_again hsave).1.2 hfinite⟩

/-- An infinite threshold is loaded and saved, but not loaded again. -/
theorem infinite_threshold_is_refused :
    let t := FileTree.empty.put (Path.ofText "a.json")
      (.file "\x7b\"minChangeThreshold\":Infinity\x7d")
    let q := Path.ofText "b.json"
    ∃ s, load t (Path.ofText "a.json") = .ok s ∧ (s.save t q).2 = .ok q ∧
      load (s.save t q).1 q =
        .error (.rejected [⟨.notReal, [.field "minChangeThreshold"]⟩]) := by
  intro t q
  have hloaded : ∃ s, load t (Path.ofText "a.json") = .ok s ∧ (s.save t q).2 = .ok q ∧
      s.lostNumbers = [⟨.notReal, [.field "minChangeThreshold"]⟩] := by
    decide +kernel
  obtain ⟨s, hload, hsaved, hlost⟩ := hloaded
  have hsave : s.save t q = ((s.save t q).1, .ok q) := Prod.ext rfl hsaved
  obtain ⟨-, hplace⟩ := inPlace_of_save hsave
  refine ⟨s, hload, hsaved, ?_⟩
  rw [load_of_inPlace hplace, hlost, if_neg (List.cons_ne_nil _ _)]

end RobotHand.Settings
