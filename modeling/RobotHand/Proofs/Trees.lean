import RobotHand.Files.Tree
import RobotHand.Proofs.Outcomes
import RobotHand.Proofs.Tables

/-! What a tree leads to after folders were made and files were written, moved and removed. -/
namespace RobotHand

namespace Path

variable {p a d : Path} {suffix : String}

theorem length_of_mem_ancestry (h : a ∈ p.ancestry) : a.names.length ≤ p.names.length := by
  rw [ancestry, List.mem_map] at h
  obtain ⟨i, -, rfl⟩ := h
  rw [List.length_take]
  exact Nat.min_le_right _ _

/-- A path is the last of the folders that it leads through. -/
theorem mem_ancestry (h : p.names ≠ []) : p ∈ p.ancestry := by
  have hlength := List.length_pos_of_ne_nil h
  refine List.mem_map.2 ⟨p.names.length - 1, List.mem_range.2 (by omega), ?_⟩
  rw [Nat.sub_add_cancel hlength, List.take_length]

theorem length_parent_lt (h : p.names ≠ []) : p.parent.names.length < p.names.length := by
  have hlength := List.length_pos_of_ne_nil h
  rw [parent, List.length_dropLast]
  omega

theorem parent_ne (h : p.names ≠ []) : p.parent ≠ p := by
  intro heq
  have hlt := length_parent_lt h
  rw [heq] at hlt
  exact Nat.lt_irrefl _ hlt

theorem names_parent_of_names (h : p.names = []) : p.parent.names = [] := by
  rw [parent, h]
  rfl

/-- The folders that lead to a path are those that lead to its parent, and the path itself. -/
theorem ancestry_eq (h : p.names ≠ []) : p.ancestry = p.parent.ancestry ++ [p] := by
  obtain ⟨absolute, names⟩ := p
  have hnames := List.dropLast_concat_getLast h
  generalize names.dropLast = front at hnames
  generalize names.getLast h = name at hnames
  subst hnames
  have hfront : ∀ i ∈ List.range front.length,
      (front ++ [name]).take (i + 1) = front.take (i + 1) := fun i hi =>
    List.take_append_of_le_length (List.mem_range.1 hi)
  rw [ancestry, ancestry, parent]
  dsimp only
  rw [List.dropLast_concat, List.length_append, List.length_singleton, List.range_succ,
    List.map_append, List.map_singleton, List.take_of_length_le (by simp)]
  refine congrArg (· ++ _) (List.map_congr_left fun i hi => ?_)
  rw [hfront i hi]

theorem parent_mem_ancestry (h : a ∈ p.ancestry) : a.parent.names = [] ∨ a.parent ∈ p.ancestry := by
  rw [ancestry, List.mem_map] at h
  obtain ⟨i, hi, rfl⟩ := h
  have hlt := List.mem_range.1 hi
  have hdrop : (p.names.take (i + 1)).dropLast = p.names.take i := by
    have hlength : min (min (i + 1) p.names.length - 1) (i + 1) = i := by omega
    rw [List.dropLast_eq_take, List.length_take, List.take_take, hlength]
  rw [parent]
  dsimp only
  rw [hdrop]
  cases i with
  | zero => exact .inl rfl
  | succ i => exact .inr (List.mem_map.2 ⟨i, List.mem_range.2 (by omega), rfl⟩)

/-- A path with another suffix stands beside the path. -/
theorem withSuffix_beside (h : p.withSuffix? suffix = some d) :
    p.names ≠ [] ∧ d.names ≠ [] ∧ d.names.length = p.names.length ∧ d.parent = p.parent := by
  rw [withSuffix?, Option.map_eq_some_iff] at h
  obtain ⟨name, hname, rfl⟩ := h
  have hne : p.names ≠ [] := by
    intro hnil
    rw [hnil] at hname
    cases hname
  have hlength := List.length_pos_of_ne_nil hne
  refine ⟨hne, List.concat_ne_nil _ _, ?_, ?_⟩
  · rw [List.length_append, List.length_dropLast, List.length_singleton]
    omega
  · rw [parent, List.dropLast_concat]
    rfl

/-- A path whose name does not end in a suffix is another than with the suffix. -/
theorem withSuffix_ne {name : String} (h : p.withSuffix? suffix = some d)
    (hname : p.names.getLast? = some name) (hsuffix : ¬ suffix.toList <:+ name.toList) :
    d ≠ p := by
  rintro rfl
  rw [withSuffix?, hname] at h
  have hnames := congrArg (fun p => p.names.getLast?) (Option.some.inj h)
  dsimp only at hnames
  rw [List.getLast?_concat, hname, Option.some.injEq] at hnames
  refine hsuffix ⟨stem name.toList, ?_⟩
  have htext := congrArg String.toList hnames
  rw [String.toList_append, String.toList_ofList] at htext
  exact htext

end Path

namespace FileTree

variable {t t' : FileTree} {p q a : Path} {n : Node} {text : String}

theorem node?_put (t : FileTree) (hp : p.names ≠ []) (n : Node) (q : Path) :
    (t.put p n).node? q = if p = q then some n else t.node? q := by
  unfold node?
  split
  · next hq =>
    rw [if_neg]
    rintro rfl
    exact hp hq
  · exact Table.get?_put t.nodes q p n

theorem node?_erase (t : FileTree) (hp : p.names ≠ []) (q : Path) :
    node? ⟨t.nodes.erase p⟩ q = if p = q then none else t.node? q := by
  unfold node?
  split
  · next hq =>
    rw [if_neg]
    rintro rfl
    exact hp hq
  · exact Table.get?_erase t.nodes q p

theorem names_ne_nil_of_node (h : t.node? p ≠ some .folder) : p.names ≠ [] :=
  fun hnil => h (if_pos hnil)

theorem names_ne_nil_of_file (h : t.node? p = some (.file text)) : p.names ≠ [] :=
  names_ne_nil_of_node (t := t) (by simp [h])

theorem put_eq_self (h : t.node? p = some (.file text)) : t.put p (.file text) = t := by
  have hne := names_ne_nil_of_file h
  rw [node?, if_neg hne] at h
  exact congrArg FileTree.mk (Table.put_eq_self h)

theorem erase_put (hp : p.names ≠ []) (h : t.node? p = none) (n : Node) :
    FileTree.mk ((t.put p n).nodes.erase p) = t := by
  rw [node?, if_neg hp] at h
  exact congrArg FileTree.mk (Table.erase_put h)

theorem read_eq_ok_iff : t.read p = .ok text ↔ t.node? p = some (.file text) := by
  unfold read
  split <;> simp_all

theorem admits_eq_ok_iff :
    t.admits p = .ok () ↔ t.node? p.parent = some .folder ∧ t.node? p ≠ some .folder := by
  unfold admits
  split <;> simp_all

theorem write_eq_ok_iff :
    t.write p text = .ok t' ↔ t.admits p = .ok () ∧ t' = t.put p (.file text) := by
  unfold write
  rw [bind_eq_ok_iff]
  constructor
  · rintro ⟨_, hadmits, h⟩
    cases h
    exact ⟨hadmits, rfl⟩
  · rintro ⟨hadmits, rfl⟩
    exact ⟨(), hadmits, rfl⟩

theorem remove_eq_ok_iff :
    t.remove p = .ok t' ↔ ∃ text, t.node? p = some (.file text) ∧ t' = ⟨t.nodes.erase p⟩ := by
  unfold remove
  rw [bind_eq_ok_iff]
  constructor
  · rintro ⟨text, hread, h⟩
    cases h
    exact ⟨text, read_eq_ok_iff.1 hread, rfl⟩
  · rintro ⟨text, hnode, rfl⟩
    exact ⟨text, read_eq_ok_iff.2 hnode, rfl⟩

theorem move_eq_ok_iff :
    t.move p q = .ok t' ↔ ∃ text, t.node? p = some (.file text) ∧ t.admits q = .ok () ∧
      t' = if p = q then t else put ⟨t.nodes.erase p⟩ q (.file text) := by
  unfold move
  rw [bind_eq_ok_iff]
  constructor
  · rintro ⟨text, hread, h⟩
    obtain ⟨_, hadmits, h⟩ := bind_eq_ok_iff.1 h
    cases h
    exact ⟨text, read_eq_ok_iff.1 hread, hadmits, rfl⟩
  · rintro ⟨text, hnode, hadmits, rfl⟩
    exact ⟨text, read_eq_ok_iff.2 hnode, bind_eq_ok_iff.2 ⟨(), hadmits, rfl⟩⟩

/-- A folder that was made is there, and all else is as before. -/
theorem node?_makeFolder (h : t.makeFolder p = .ok t') (q : Path) :
    t'.node? q = if p = q then some .folder else t.node? q := by
  unfold makeFolder at h
  split at h
  · next hp =>
    cases h
    split
    · next heq => rw [← heq, hp]
    · rfl
  · cases h
  · next hp =>
    cases h
    have hne := names_ne_nil_of_node (t := t) (p := p) (by simp [hp])
    exact node?_put t hne .folder q

/-- The folders that lead to a path are there once they were made, and all else is as before. -/
theorem node?_makeFolders (h : t.makeFolders p = .ok t') (q : Path) :
    t'.node? q = if q ∈ p.ancestry then some .folder else t.node? q := by
  unfold makeFolders at h
  generalize p.ancestry = folders at h
  induction folders generalizing t with
  | nil =>
    cases h
    rw [if_neg List.not_mem_nil]
  | cons a l ih =>
    rw [List.foldlM_cons, bind_eq_ok_iff] at h
    obtain ⟨u, hu, h⟩ := h
    rw [ih h, node?_makeFolder hu]
    by_cases hl : q ∈ l
    · rw [if_pos hl, if_pos (List.mem_cons_of_mem a hl)]
    · simp only [hl, List.mem_cons, or_false, if_false, eq_comm]

/-- All folders that lead to a path are there once they were made. -/
theorem makeFolders_folder (h : t.makeFolders p = .ok t') :
    ∀ a ∈ p.ancestry, t'.node? a = some .folder := by
  intro a ha
  rw [node?_makeFolders h, if_pos ha]

theorem makeFolder_eq_ok_iff :
    (∃ t', t.makeFolder p = .ok t') ↔ ∀ text, t.node? p ≠ some (.file text) := by
  unfold makeFolder
  split <;> simp_all

/-- Only a file in the place of a folder keeps folders from being made. -/
theorem makeFolders_eq_ok_iff :
    (∃ t', t.makeFolders p = .ok t') ↔ ∀ a ∈ p.ancestry, ∀ text, t.node? a ≠ some (.file text) := by
  unfold makeFolders
  induction p.ancestry generalizing t with
  | nil => exact ⟨fun _ => nofun, fun _ => ⟨t, rfl⟩⟩
  | cons a l ih =>
    simp only [List.foldlM_cons, bind_eq_ok_iff, List.forall_mem_cons]
    constructor
    · rintro ⟨t', u, hu, h⟩
      have ha := makeFolder_eq_ok_iff.1 ⟨u, hu⟩
      refine ⟨ha, fun b hb text hfile => ?_⟩
      have hkept := ih.1 ⟨t', h⟩ b hb text
      rw [node?_makeFolder hu, if_neg] at hkept
      · exact hkept hfile
      · rintro rfl
        exact ha text hfile
    · rintro ⟨ha, hl⟩
      obtain ⟨u, hu⟩ := makeFolder_eq_ok_iff.2 ha
      obtain ⟨t', h⟩ := (ih (t := u)).2 fun b hb text => by
        rw [node?_makeFolder hu]
        split
        · exact fun h => by cases h
        · exact hl b hb text
      exact ⟨t', u, hu, h⟩

/-- Files stay when folders are made, and none is made so. -/
theorem makeFolders_file (h : t.makeFolders p = .ok t') :
    t'.node? q = some (.file text) ↔ t.node? q = some (.file text) := by
  rw [node?_makeFolders h]
  split
  · next hmem =>
    have hnot := makeFolders_eq_ok_iff.1 ⟨t', h⟩ q hmem text
    exact iff_of_false (fun hfolder => by cases hfolder) hnot
  · exact Iff.rfl

/-- Where all folders are there, none is made. -/
theorem makeFolders_eq_self (h : ∀ a ∈ p.ancestry, t.node? a = some .folder) :
    t.makeFolders p = .ok t := by
  have hall : ∀ l : List Path, (∀ a ∈ l, t.node? a = some .folder) →
      l.foldlM makeFolder t = .ok t := by
    intro l hl
    induction l with
    | nil => rfl
    | cons p l ih =>
      obtain ⟨hp, hl⟩ := List.forall_mem_cons.1 hl
      have hmake : t.makeFolder p = .ok t := by rw [makeFolder, hp]
      rw [List.foldlM_cons, hmake]
      exact ih hl
  exact hall p.ancestry h

/-- Whatever is there lies in a folder. -/
def Rooted (t : FileTree) : Prop := ∀ p n, t.node? p = some n → t.node? p.parent = some .folder

theorem rooted_empty : Rooted .empty := by
  intro p n hp
  by_cases hnil : p.names = []
  · exact if_pos (Path.names_parent_of_names hnil)
  · rw [node?, if_neg hnil] at hp
    cases hp

/-- All that leads to a folder are folders. -/
theorem Rooted.ancestry (ht : t.Rooted) (hp : t.node? p = some .folder) :
    ∀ a ∈ p.ancestry, t.node? a = some .folder := by
  induction hlength : p.names.length generalizing p with
  | zero =>
    intro a ha
    rw [Path.ancestry, hlength] at ha
    cases ha
  | succ n ih =>
    intro a ha
    have hne : p.names ≠ [] := List.ne_nil_of_length_eq_add_one hlength
    rw [Path.ancestry_eq hne, List.mem_append, List.mem_singleton] at ha
    rcases ha with ha | rfl
    · refine ih (ht p _ hp) ?_ a ha
      rw [Path.parent, List.length_dropLast, hlength, Nat.add_sub_cancel]
    · exact hp

/-- Where a folder could not be made, nothing is. -/
theorem Rooted.node?_of_makeFolders_error (ht : t.Rooted) {e : Failure}
    (h : t.makeFolders p.parent = .error e) : t.node? p = none := by
  cases hp : t.node? p with
  | none => rfl
  | some n =>
    have hall := ht.ancestry (ht p n hp)
    rw [makeFolders_eq_self hall] at h
    cases h

theorem Rooted.put (ht : t.Rooted) (hp : p.names ≠ []) (hparent : t.node? p.parent = some .folder)
    (h : t.node? p ≠ some .folder) (n : Node) : (t.put p n).Rooted := by
  intro q m hq
  have hfolder : ∀ q, t.node? q = some .folder → (t.put p n).node? q = some .folder := by
    intro q hq
    rw [node?_put t hp, if_neg]
    · exact hq
    · rintro rfl
      exact h hq
  rw [node?_put t hp] at hq
  split at hq
  · next heq =>
    rw [← heq]
    exact hfolder _ hparent
  · exact hfolder _ (ht q m hq)

theorem Rooted.erase (ht : t.Rooted) (h : t.node? p = some (.file text)) :
    Rooted ⟨t.nodes.erase p⟩ := by
  have hp : p.names ≠ [] := names_ne_nil_of_file h
  intro q n hq
  rw [node?_erase t hp] at hq
  split at hq
  · cases hq
  · have hfolder := ht q n hq
    rw [node?_erase t hp, if_neg]
    · exact hfolder
    · rintro heq
      rw [← heq, h] at hfolder
      cases hfolder

theorem Rooted.makeFolders (ht : t.Rooted) (h : t.makeFolders p = .ok t') : t'.Rooted := by
  intro q n hq
  rw [node?_makeFolders h] at hq ⊢
  have hparent : q.parent ∈ p.ancestry ∨ t.node? q.parent = some .folder := by
    split at hq
    · next hmem => exact (Path.parent_mem_ancestry hmem).symm.imp_right fun hnil => if_pos hnil
    · exact .inr (ht q n hq)
  split
  · rfl
  · next hnot => exact hparent.resolve_left hnot

theorem Rooted.write (ht : t.Rooted) (h : t.write p text = .ok t') : t'.Rooted := by
  obtain ⟨hadmits, rfl⟩ := write_eq_ok_iff.1 h
  obtain ⟨hparent, hp⟩ := admits_eq_ok_iff.1 hadmits
  exact ht.put (names_ne_nil_of_node hp) hparent hp (.file text)

theorem Rooted.remove (ht : t.Rooted) (h : t.remove p = .ok t') : t'.Rooted := by
  obtain ⟨text, hfile, rfl⟩ := remove_eq_ok_iff.1 h
  exact ht.erase hfile

theorem Rooted.move (ht : t.Rooted) (h : t.move p q = .ok t') : t'.Rooted := by
  obtain ⟨text, hfile, hadmits, rfl⟩ := move_eq_ok_iff.1 h
  obtain ⟨hparent, hq⟩ := admits_eq_ok_iff.1 hadmits
  have hp : p.names ≠ [] := names_ne_nil_of_file hfile
  split
  · exact ht
  · next hne =>
    refine (ht.erase hfile).put (names_ne_nil_of_node hq) ?_ ?_ _
    · rw [node?_erase t hp, if_neg]
      · exact hparent
      · intro heq
        rw [← heq, hfile] at hparent
        cases hparent
    · rw [node?_erase t hp, if_neg hne]
      exact hq

end FileTree
end RobotHand
