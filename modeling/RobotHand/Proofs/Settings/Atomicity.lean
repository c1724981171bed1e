import RobotHand.Proofs.Settings.Storage

/-! A save takes place or leaves the old settings, and it leaves no draft. -/
namespace RobotHand.Settings

open FileTree

variable {s : Settings} {t t' : FileTree} {p q draft : Path} {text : String}

theorem node?_discard_of_ne (t : FileTree) (hdraft : draft.names ≠ []) (hne : draft ≠ q) :
    (discard t draft).node? q = t.node? q := by
  unfold discard
  split
  · next hremove =>
    obtain ⟨text, -, rfl⟩ := remove_eq_ok_iff.1 hremove
    rw [node?_erase t hdraft, if_neg hne]
  · rfl

theorem node?_discard (t : FileTree) (draft : Path) (text : String) :
    (discard t draft).node? draft ≠ some (.file text) := by
  intro hfile
  unfold discard at hfile
  split at hfile
  · next hremove =>
    obtain ⟨text', hdraft, rfl⟩ := remove_eq_ok_iff.1 hremove
    rw [node?_erase t (names_ne_nil_of_file hdraft), if_pos rfl] at hfile
    cases hfile
  · next e hremove =>
    have hok := remove_eq_ok_iff.2 ⟨text, hfile, rfl⟩
    rw [hok] at hremove
    cases hremove

theorem rooted_discard (ht : t.Rooted) (draft : Path) : (discard t draft).Rooted := by
  unfold discard
  split
  · next hremove => exact ht.remove hremove
  · exact ht

/-- A file that could not be replaced has its draft discarded, whether or not it was written. -/
theorem discard_of_replace {e : Failure} (hdraft : draft.names ≠ [])
    (h : replace t draft p text = (t', .error e)) :
    ∃ u, (∀ q, q ≠ draft → u.node? q = t.node? q) ∧ t' = discard u draft := by
  unfold replace at h
  split at h
  · cases h
    exact ⟨t, fun _ _ => rfl, rfl⟩
  · next written hwrite =>
    split at h
    · cases h
      obtain ⟨-, rfl⟩ := write_eq_ok_iff.1 hwrite
      refine ⟨_, fun q hq => ?_, rfl⟩
      rw [node?_put t hdraft, if_neg hq.symm]
    · cases h

/-- What replacing a file leaves: the new text or what was there before, no draft, and all else as
it was. -/
structure Replaces (t t' : FileTree) (draft p : Path) (text : String)
    (outcome : Except Failure Unit) : Prop where
  in_target : outcome = .ok () ∧ t'.node? p = some (.file text) ∨
    (∃ e, outcome = .error e) ∧ t'.node? p = t.node? p
  no_draft : ∀ text, t'.node? draft ≠ some (.file text)
  elsewhere : ∀ q, q ≠ p → q ≠ draft → t'.node? q = t.node? q

theorem replaces (t : FileTree) (hp : p.names ≠ []) (hdraft : draft.names ≠ []) (hne : draft ≠ p)
    (text : String) :
    Replaces t (replace t draft p text).1 draft p text (replace t draft p text).2 := by
  rcases hreplace : replace t draft p text with ⟨t', outcome⟩
  cases outcome with
  | ok =>
    have hnode := node?_replace hdraft hp hreplace
    refine ⟨.inl ⟨rfl, ?_⟩, fun text => ?_, fun q hqp hqd => ?_⟩
    · rw [hnode, if_pos rfl]
    · rw [hnode, if_neg hne.symm, if_pos rfl]
      exact fun h => by cases h
    · rw [hnode, if_neg hqp.symm, if_neg hqd.symm]
  | error e =>
    obtain ⟨u, hu, rfl⟩ := discard_of_replace hdraft hreplace
    refine ⟨.inr ⟨⟨e, rfl⟩, ?_⟩, node?_discard u draft, fun q _ hqd => ?_⟩
    · rw [node?_discard_of_ne u hdraft hne, hu p hne.symm]
    · rw [node?_discard_of_ne u hdraft hqd.symm, hu q hqd]

theorem rooted_replace (ht : t.Rooted) (draft p : Path) (text : String) :
    (replace t draft p text).1.Rooted := by
  unfold replace
  split
  · exact rooted_discard ht draft
  · next written hwrite =>
    have hwritten := ht.write hwrite
    split
    · exact rooted_discard hwritten draft
    · next hmove => exact hwritten.move hmove

/-- Only a folder in the place of a file keeps the file from being replaced. -/
theorem replace_succeeds_iff (hdraft : draft.names ≠ []) (hne : draft ≠ p)
    (hparent : draft.parent = p.parent) (hfolder : t.node? p.parent = some .folder) :
    (replace t draft p text).2 = .ok () ↔
      t.node? draft ≠ some .folder ∧ t.node? p ≠ some .folder := by
  have hwritten : ∀ q, draft ≠ q → (t.put draft (.file text)).node? q = t.node? q := by
    intro q hq
    rw [node?_put t hdraft, if_neg hq]
  have hfolder' : (t.put draft (.file text)).node? p.parent = some .folder := by
    rw [hwritten, hfolder]
    rw [← hparent]
    exact (Path.parent_ne hdraft).symm
  have hiff : (replace t draft p text).2 = .ok () ↔
      ∃ t', replace t draft p text = (t', .ok ()) :=
    ⟨fun h => ⟨_, Prod.ext rfl h⟩, fun ⟨t', h⟩ => congrArg Prod.snd h⟩
  rw [hiff]
  constructor
  · rintro ⟨t', h⟩
    obtain ⟨written, hwrite, hmove⟩ := replace_eq_ok_iff.1 h
    obtain ⟨hadmits, rfl⟩ := write_eq_ok_iff.1 hwrite
    obtain ⟨text', -, hadmits', -⟩ := move_eq_ok_iff.1 hmove
    refine ⟨(admits_eq_ok_iff.1 hadmits).2, ?_⟩
    rw [← hwritten p hne]
    exact (admits_eq_ok_iff.1 hadmits').2
  · rintro ⟨hdraftNode, hpNode⟩
    have hwrite : t.write draft text = .ok (t.put draft (.file text)) :=
      write_eq_ok_iff.2 ⟨admits_eq_ok_iff.2 ⟨hparent ▸ hfolder, hdraftNode⟩, rfl⟩
    refine ⟨_, replace_eq_ok_iff.2 ⟨_, hwrite, move_eq_ok_iff.2 ⟨text, ?_, ?_, rfl⟩⟩⟩
    · rw [node?_put t hdraft, if_pos rfl]
    · refine admits_eq_ok_iff.2 ⟨hfolder', ?_⟩
      rw [hwritten p hne]
      exact hpNode

theorem save_of_error {e : Failure} (h : t.makeFolders p.parent = .error e) :
    s.save t p = (t, .error (.file e)) := by
  rw [save, h]

theorem save_of_ok {u : FileTree} (h : t.makeFolders p.parent = .ok u)
    (hsuffix : p.withSuffix? ".tmp" = some draft) :
    s.save t p = ((replace u draft p s.document).1,
      ((replace u draft p s.document).2.mapError .file).map fun _ => p) := by
  rw [save, h]
  dsimp only
  rw [hsuffix]

theorem rooted_save (ht : t.Rooted) (s : Settings) (p : Path) : (s.save t p).1.Rooted := by
  cases h : t.makeFolders p.parent with
  | error e =>
    rw [save_of_error h]
    exact ht
  | ok u =>
    have hu := ht.makeFolders h
    cases hsuffix : p.withSuffix? ".tmp" with
    | none =>
      rw [save, h]
      dsimp only
      rw [hsuffix]
      exact hu
    | some draft =>
      rw [save_of_ok h hsuffix]
      exact rooted_replace hu draft p s.document

theorem node?_of_makeFolders {u : FileTree} (h : t.makeFolders p.parent = .ok u)
    (hp : p.names ≠ []) (hlength : q.names.length = p.names.length) : u.node? q = t.node? q := by
  rw [node?_makeFolders h, if_neg]
  intro hmem
  have hle := Path.length_of_mem_ancestry hmem
  have hlt := Path.length_parent_lt hp
  omega

/-- A save fails only where a file stands in the place of a folder, or a folder in that of the file
or of its draft. -/
theorem save_succeeds_iff (hsuffix : p.withSuffix? ".tmp" = some draft) (hne : draft ≠ p) :
    (s.save t p).2 = .ok p ↔ (∀ a ∈ p.parent.ancestry, ∀ text, t.read a ≠ .ok text) ∧
      t.node? draft ≠ some .folder ∧ t.node? p ≠ some .folder := by
  obtain ⟨hp, hdraft, hlength, hparent⟩ := Path.withSuffix_beside hsuffix
  have hfolders : (∃ u, t.makeFolders p.parent = .ok u) ↔
      ∀ a ∈ p.parent.ancestry, ∀ text, t.read a ≠ .ok text := by
    simp only [makeFolders_eq_ok_iff, ne_eq, read_eq_ok_iff]
  cases h : t.makeFolders p.parent with
  | error e =>
    rw [save_of_error h, ← hfolders, h]
    exact iff_of_false (fun h => by cases h) fun ⟨⟨u, h⟩, _⟩ => by cases h
  | ok u =>
    have hsame : (replace u draft p s.document).2 = .ok () ↔ _ :=
      replace_succeeds_iff hdraft hne hparent (node?_parent (makeFolders_folder h))
    rw [node?_of_makeFolders h hp hlength, node?_of_makeFolders h hp rfl] at hsame
    have hresult : ∀ outcome : Except Failure Unit,
        ((outcome.mapError StorageFailure.file).map fun _ => p) = .ok p ↔ outcome = .ok () := by
      intro outcome
      cases outcome with
      | ok => exact iff_of_true rfl rfl
      | error e => exact iff_of_false (fun h => by cases h) (fun h => by cases h)
    rw [save_of_ok h hsuffix, hresult, hsame, and_iff_right (hfolders.1 ⟨u, h⟩)]

/-- A save takes place as a whole or not at all. Either it succeeds, and the target holds the
document of the settings, or a file operation fails, and a file that was there keeps its text. In
both cases no draft is left, and all other files keep theirs. The document is the text of an object
with every field of the settings, and it is read as the settings unless a number is lost. -/
theorem save_is_atomic (s : Settings) (t : FileTree) (ht : t.Rooted) (p : Path) (name : String)
    (hname : p.names.getLast? = some name) (hsuffix : ¬ ".tmp".toList <:+ name.toList) :
    s.document = Json.pretty (.object [("robotIp", .text s.address),
        ("minChangeThreshold", .real s.threshold), ("sendInterval", .real s.interval),
        ("handToTrack", .text s.hand.name),
        ("formulas", .object (s.formulas.entries.map fun (key, f) => (key, .text f))),
        ("servoMaxValues", .object (s.maxima.entries.map fun (key, m) => (key, .int m)))]) ∧
      read s.document = (if s.lostNumbers = [] then .ok s else .rejected s.lostNumbers) ∧
    ∃ draft, p.withSuffix? ".tmp" = some draft ∧
      let (t', result) := s.save t p
      (result = .ok p ∧ t'.read p = .ok s.document ∨
          (∃ e, result = .error (.file e)) ∧ ∀ text, t.read p = .ok text → t'.read p = .ok text) ∧
        (∀ text, t'.read draft ≠ .ok text) ∧
        (∀ q text, q ≠ p → q ≠ draft → t.read q = .ok text → t'.read q = .ok text) ∧
        (result = .ok p ↔ (∀ a ∈ p.parent.ancestry, ∀ text, t.read a ≠ .ok text) ∧
          t.node? draft ≠ some .folder ∧ t.node? p ≠ some .folder) ∧
        t'.Rooted := by
  obtain ⟨draft, hdraft⟩ : ∃ draft, p.withSuffix? ".tmp" = some draft :=
    ⟨_, congrArg (Option.map _) hname⟩
  obtain ⟨hp, hdraftNames, hlength, hparent⟩ := Path.withSuffix_beside hdraft
  have hne := Path.withSuffix_ne hdraft hname hsuffix
  have hsucceeds : (s.save t p).2 = .ok p ↔ _ := save_succeeds_iff hdraft hne
  have hrooted := rooted_save ht s p
  refine ⟨rfl, read_document s, draft, hdraft, ?_⟩
  simp only [ne_eq, read_eq_ok_iff] at hsucceeds ⊢
  cases h : t.makeFolders p.parent with
  | error e =>
    -- The tree is as before, and where a folder could not be made, there is no draft.
    have hnone : t.node? draft = none := ht.node?_of_makeFolders_error (hparent ▸ h)
    rw [save_of_error h] at hsucceeds hrooted ⊢
    refine ⟨.inr ⟨⟨e, rfl⟩, fun _ => id⟩, fun text hfile => ?_, fun _ _ _ _ => id, hsucceeds,
      hrooted⟩
    rw [hnone] at hfile
    cases hfile
  | ok u =>
    have hfile : ∀ {q text}, u.node? q = some (.file text) ↔ t.node? q = some (.file text) :=
      makeFolders_file h
    have hreplaces := replaces u hp hdraftNames hne s.document
    rw [save_of_ok h hdraft] at hsucceeds hrooted ⊢
    refine ⟨?_, hreplaces.no_draft, fun q text hqp hqd hq => ?_, hsucceeds, hrooted⟩
    · rcases hreplaces.in_target with ⟨houtcome, htarget⟩ | ⟨⟨e, houtcome⟩, htarget⟩
      · rw [houtcome]
        exact .inl ⟨rfl, htarget⟩
      · rw [houtcome, htarget]
        exact .inr ⟨⟨e, rfl⟩, fun text hq => hfile.2 hq⟩
    · rw [hreplaces.elsewhere q hqp hqd]
      exact hfile.2 hq

/-- A folder stands in the place of the file, and a draft is left from before. -/
def occupied : FileTree :=
  (FileTree.empty.put ⟨false, ["a.json"]⟩ .folder).put ⟨false, ["a.tmp"]⟩ (.file "old")

theorem rooted_occupied : occupied.Rooted := by
  have hfolder := rooted_empty.put (p := ⟨false, ["a.json"]⟩) (List.cons_ne_nil _ _) rfl
    (by decide) .folder
  exact hfolder.put (List.cons_ne_nil _ _) rfl (by decide) (.file "old")

/-- The save fails and removes the draft. -/
theorem save_is_atomic_occupied :
    let p : Path := ⟨false, ["a.json"]⟩
    let draft : Path := ⟨false, ["a.tmp"]⟩
    occupied.Rooted ∧ p.names.getLast? = some "a.json" ∧ ¬ ".tmp".toList <:+ "a.json".toList ∧
      occupied.read draft = .ok "old" ∧ (default.save occupied p).2 = .error (.file .isFolder) ∧
      ∀ text, (default.save occupied p).1.read draft ≠ .ok text := by
  intro p draft
  have hsuffix : ¬ ".tmp".toList <:+ "a.json".toList := by decide
  obtain ⟨-, -, draft', hdraft, -, hgone, -⟩ :=
    save_is_atomic default occupied rooted_occupied p "a.json" rfl hsuffix
  have hsame : some draft = some draft' := hdraft
  cases hsame
  exact ⟨rooted_occupied, rfl, hsuffix, rfl, rfl, hgone⟩

end RobotHand.Settings
