import Mathlib
import RobotHand.Table

/-! The entries of a table, what it holds under a key, and both after a change. -/
namespace RobotHand.Table

variable {κ ν : Type} [DecidableEq κ]

theorem mem_of_find {k : κ} {v : ν} {l : List (κ × ν)} (h : find k l = some v) : (k, v) ∈ l := by
  induction l with
  | nil => cases h
  | cons e l ih =>
    obtain ⟨k', v'⟩ := e
    rw [find] at h
    split at h
    · next heq =>
      cases h
      rw [heq]
      exact List.mem_cons_self
    · exact List.mem_cons_of_mem _ (ih h)

theorem mem_write {k : κ} {v : ν} {l : List (κ × ν)} {e : κ × ν} (h : e ∈ write k v l) :
    e = (k, v) ∨ e ∈ l := by
  induction l with
  | nil => exact .inl (List.mem_singleton.1 h)
  | cons e' l ih =>
    obtain ⟨k', v'⟩ := e'
    rw [write] at h
    split at h
    · exact (List.mem_cons.1 h).imp_right (List.mem_cons_of_mem _)
    · rcases List.mem_cons.1 h with rfl | h
      · exact .inr List.mem_cons_self
      · exact (ih h).imp_right (List.mem_cons_of_mem _)

/-- What holds of the old entries and of the new ones holds of all. -/
theorem forall_entries_putAll {P : κ × ν → Prop} {t : Table κ ν} {l : List (κ × ν)}
    (ht : ∀ e ∈ t.entries, P e) (hl : ∀ e ∈ l, P e) : ∀ e ∈ (t.putAll l).entries, P e := by
  induction l generalizing t with
  | nil => exact ht
  | cons e l ih =>
    refine ih (fun e' he' => ?_) fun e' he' => hl e' (List.mem_cons_of_mem _ he')
    rcases mem_write he' with rfl | he'
    · exact hl e List.mem_cons_self
    · exact ht e' he'

theorem find_of_mem {k : κ} {v : ν} {l : List (κ × ν)} (hl : (l.map Prod.fst).Nodup)
    (h : (k, v) ∈ l) : find k l = some v := by
  induction l with
  | nil => cases h
  | cons e l ih =>
    obtain ⟨k', v'⟩ := e
    obtain ⟨hk', hl⟩ := List.nodup_cons.1 hl
    rw [find]
    rcases List.mem_cons.1 h with heq | h
    · cases heq
      exact if_pos rfl
    · have hne : k' ≠ k := by
        rintro rfl
        exact hk' (List.mem_map.2 ⟨_, h, rfl⟩)
      rw [if_neg hne]
      exact ih hl h

theorem get?_eq_some_iff {t : Table κ ν} {k : κ} {v : ν} :
    t.get? k = some v ↔ (k, v) ∈ t.entries :=
  ⟨mem_of_find, find_of_mem t.nodup_keys⟩

theorem mem_keys_iff {t : Table κ ν} {k : κ} : k ∈ t.keys ↔ ∃ v, t.get? k = some v := by
  simp [keys, get?_eq_some_iff]

theorem get?_putAll_of_not_mem {l : List (κ × ν)} {k : κ} (h : k ∉ l.map Prod.fst)
    (t : Table κ ν) : (t.putAll l).get? k = t.get? k := by
  induction l generalizing t with
  | nil => rfl
  | cons e l ih =>
    obtain ⟨hne, hl⟩ := not_or.1 fun hmem => h (List.mem_cons.2 hmem)
    have hput : (t.put e.1 e.2).get? k = t.get? k := by
      rw [get?_put, if_neg fun heq => hne heq.symm]
    exact (ih hl _).trans hput

theorem get?_putAll_of_mem {l : List (κ × ν)} {k : κ} {v : ν} (hl : (l.map Prod.fst).Nodup)
    (h : (k, v) ∈ l) (t : Table κ ν) : (t.putAll l).get? k = some v := by
  induction l generalizing t with
  | nil => cases h
  | cons e l ih =>
    obtain ⟨hnot, hl⟩ := List.nodup_cons.1 hl
    rcases List.mem_cons.1 h with heq | h
    · cases heq
      have hput : (t.put k v).get? k = some v := by rw [get?_put, if_pos rfl]
      exact (get?_putAll_of_not_mem hnot _).trans hput
    · exact ih hl h _

/-- Writing what a table already holds changes nothing. -/
theorem put_eq_self {t : Table κ ν} {k : κ} {v : ν} (h : t.get? k = some v) : t.put k v = t := by
  have hwrite : ∀ l : List (κ × ν), find k l = some v → write k v l = l := by
    intro l hl
    induction l with
    | nil => cases hl
    | cons e l ih =>
      obtain ⟨k', v'⟩ := e
      rw [find] at hl
      rw [write]
      split at hl
      · next heq =>
        cases hl
        rw [if_pos heq, heq]
      · next hne => rw [if_neg hne, ih hl]
  exact Table.ext (hwrite t.entries h)

theorem putAll_eq_self {t : Table κ ν} {l : List (κ × ν)} (h : ∀ e ∈ l, t.get? e.1 = some e.2) :
    t.putAll l = t := by
  induction l with
  | nil => rfl
  | cons e l ih =>
    have hput : t.put e.1 e.2 = t := put_eq_self (h e List.mem_cons_self)
    have hl := ih fun e' he' => h e' (List.mem_cons_of_mem e he')
    exact (congrArg (putAll · l) hput).trans hl

theorem write_of_not_mem {k : κ} {v : ν} {l : List (κ × ν)} (h : k ∉ l.map Prod.fst) :
    write k v l = l ++ [(k, v)] := by
  induction l with
  | nil => rfl
  | cons e l ih =>
    obtain ⟨hne, hl⟩ := not_or.1 fun hmem => h (List.mem_cons.2 hmem)
    have hkey : ¬ e.1 = k := fun heq => hne heq.symm
    exact (if_neg hkey).trans (congrArg (e :: ·) (ih hl))

theorem entries_putAll_of_nodup {t : Table κ ν} {l : List (κ × ν)}
    (h : ((t.entries ++ l).map Prod.fst).Nodup) : (t.putAll l).entries = t.entries ++ l := by
  induction l generalizing t with
  | nil => exact (List.append_nil _).symm
  | cons e l ih =>
    have hnot : e.1 ∉ t.entries.map Prod.fst := by
      rw [List.map_append, List.map_cons] at h
      exact fun hmem => List.disjoint_of_nodup_append h hmem List.mem_cons_self
    have hput : (t.put e.1 e.2).entries = t.entries ++ [e] := write_of_not_mem hnot
    have hl := @ih (t.put e.1 e.2) (by rwa [hput, List.append_assoc])
    rw [hput, List.append_assoc] at hl
    exact hl

/-- A table is made of its entries again. -/
theorem ofList_entries (t : Table κ ν) : ofList t.entries = t :=
  Table.ext (entries_putAll_of_nodup t.nodup_keys)

/-- Of the entries under a key, the last one counts. -/
theorem get?_ofList_iff {l : List (κ × ν)} {k : κ} {v : ν} :
    (ofList l).get? k = some v ↔
      ∃ before after, l = before ++ (k, v) :: after ∧ k ∉ after.map Prod.fst := by
  have hlast : ∀ before after, k ∉ after.map Prod.fst →
      (ofList (before ++ (k, v) :: after)).get? k = some v := by
    intro before after hafter
    have hsplit : ofList (before ++ (k, v) :: after) = ((ofList before).put k v).putAll after :=
      List.foldl_append
    rw [hsplit, get?_putAll_of_not_mem hafter, get?_put, if_pos rfl]
  refine ⟨fun h => ?_, fun ⟨before, after, hl, hafter⟩ => hl ▸ hlast before after hafter⟩
  induction l using List.reverseRecOn with
  | nil => cases h
  | append_singleton l e ih =>
    have hsplit : ofList (l ++ [e]) = (ofList l).put e.1 e.2 := List.foldl_append
    rw [hsplit, get?_put] at h
    split at h
    · next heq =>
      cases h
      exact ⟨l, [], by rw [← heq], List.not_mem_nil⟩
    · next hne =>
      obtain ⟨before, after, rfl, hafter⟩ := ih h
      refine ⟨before, after ++ [e], List.append_assoc _ _ _, ?_⟩
      rw [List.map_append, List.mem_append, not_or]
      exact ⟨hafter, fun hmem => hne (List.mem_singleton.1 hmem).symm⟩

theorem get?_erase (t : Table κ ν) (k k' : κ) :
    (t.erase k').get? k = if k' = k then none else t.get? k := by
  ext v
  rw [get?_eq_some_iff, erase, List.mem_filter, decide_eq_true_iff]
  split
  · next heq =>
    rw [heq]
    exact ⟨fun h => absurd rfl h.2, fun h => absurd h.symm (Option.some_ne_none v)⟩
  · next hne =>
    rw [get?_eq_some_iff]
    exact ⟨And.left, fun h => ⟨h, fun heq => hne heq.symm⟩⟩

/-- Removing a new key restores the table. -/
theorem erase_put {t : Table κ ν} {k : κ} {v : ν} (h : t.get? k = none) :
    (t.put k v).erase k = t := by
  have hnot : k ∉ t.entries.map Prod.fst := by
    intro hmem
    obtain ⟨w, hw⟩ := mem_keys_iff.1 hmem
    exact absurd (h.symm.trans hw).symm (Option.some_ne_none w)
  have hkept : t.entries.filter (fun e => e.1 ≠ k) = t.entries := by
    rw [List.filter_eq_self]
    exact fun e he => decide_eq_true fun heq => hnot (List.mem_map.2 ⟨e, he, heq⟩)
  apply Table.ext
  change (write k v t.entries).filter (fun e => e.1 ≠ k) = t.entries
  rw [write_of_not_mem hnot, List.filter_append, hkept]
  simp

end RobotHand.Table
