import RobotHand.Control.Basic
import RobotHand.Proofs.Literals
import RobotHand.Proofs.Outcomes
import RobotHand.Proofs.Tables
import RobotHand.Settings.Text

/-! Keys that write the identifiers of servos, and what a control makes of them. -/
namespace RobotHand

namespace Servo

variable {ν : Type} {t : Table String ν} {u : Table Int ν} {id : Int} {v : ν} {e : String × ν}
  {b : Breakdown}

/-- The last entry whose key writes an identifier. -/
def LastWriting (t : Table String ν) (id : Int) (e : String × ν) : Prop :=
  ∃ before after, t.entries = before ++ e :: after ∧ Integer.Writes e.1 id ∧
    ∀ e' ∈ after, ¬ Integer.Writes e'.1 id

theorem LastWriting.mem (h : LastWriting t id e) : e ∈ t.entries := by
  obtain ⟨before, after, hentries, -⟩ := h
  rw [hentries]
  exact List.mem_append_right before List.mem_cons_self

theorem exists_lastWriting (he : e ∈ t.entries) (hid : Integer.Writes e.1 id) :
    ∃ e', LastWriting t id e' := by
  have hlast : ∀ l : List (String × ν), e ∈ l → ∃ before e' after, l = before ++ e' :: after ∧
      Integer.Writes e'.1 id ∧ ∀ e'' ∈ after, ¬ Integer.Writes e''.1 id := by
    intro l hl
    induction l using List.reverseRecOn with
    | nil => cases hl
    | append_singleton l a ih =>
      by_cases ha : Integer.Writes a.1 id
      · exact ⟨l, a, [], rfl, ha, fun _ h => absurd h List.not_mem_nil⟩
      · have hne : e ∉ [a] := fun hmem => ha (List.mem_singleton.1 hmem ▸ hid)
        obtain ⟨before, e', after, rfl, he', hafter⟩ :=
          ih ((List.mem_append.1 hl).resolve_right hne)
        refine ⟨before, e', after ++ [a], List.append_assoc _ _ _, he', ?_⟩
        exact List.forall_mem_append.2 ⟨hafter, List.forall_mem_singleton.2 ha⟩
  obtain ⟨before, e', after, h⟩ := hlast t.entries he
  exact ⟨e', before, after, h⟩

def readEntry (e : String × ν) : Except Breakdown (Int × ν) := (Integer.read e.1).map (·, e.2)

theorem readEntry_eq_ok_iff {p : Int × ν} :
    readEntry e = .ok p ↔ Integer.Writes e.1 p.1 ∧ e.2 = p.2 := by
  rw [← Integer.read_eq_ok_iff, readEntry]
  cases Integer.read e.1 with
  | error b => simp [Except.map]
  | ok i => simp [Except.map, Prod.ext_iff]

theorem readEntry_succeeds_iff : (∃ p, readEntry e = .ok p) ↔ ∃ i, Integer.Writes e.1 i :=
  ⟨fun ⟨p, hp⟩ => ⟨p.1, (readEntry_eq_ok_iff.1 hp).1⟩,
    fun ⟨i, hi⟩ => ⟨(i, e.2), readEntry_eq_ok_iff.2 ⟨hi, rfl⟩⟩⟩

theorem readEntry_eq_error_iff : readEntry e = .error b ↔ Integer.read e.1 = .error b := by
  rw [readEntry]
  cases Integer.read e.1 <;> simp [Except.map]

theorem byId_eq_ok_iff :
    byId t = .ok u ↔ ∃ l, t.entries.mapM readEntry = .ok l ∧ Table.ofList l = u := by
  change Table.ofList <$> t.entries.mapM readEntry = .ok u ↔ _
  cases t.entries.mapM readEntry with
  | error b => simp [Functor.map, Except.map]
  | ok l => simp [Functor.map, Except.map]

theorem byId_succeeds_iff : (∃ u, byId t = .ok u) ↔ ∀ key ∈ t.keys, ∃ i, Integer.Writes key i := by
  have hentries : (∃ u, byId t = .ok u) ↔ ∃ l, t.entries.mapM readEntry = .ok l := by
    simp only [byId_eq_ok_iff]
    exact ⟨fun ⟨_, l, h, _⟩ => ⟨l, h⟩, fun ⟨l, h⟩ => ⟨_, l, h, rfl⟩⟩
  rw [hentries, mapM_eq_ok_iff_forall, Table.keys, List.forall_mem_map]
  exact forall₂_congr fun _ _ => readEntry_succeeds_iff

/-- Of some keys, the first that writes no integer is refused in a given way. -/
def FirstRefused (keys : List String) (b : Breakdown) : Prop :=
  ∃ before key after, keys = before ++ key :: after ∧
    (∀ k ∈ before, ∃ i, Integer.Writes k i) ∧ Integer.read key = .error b

theorem firstRefused_iff {keys : List String} :
    FirstRefused keys b ↔ keys.mapM Integer.read = .error b := by
  simp only [mapM_eq_error_iff, FirstRefused, Integer.read_eq_ok_iff]

theorem byId_eq_error_iff : byId t = .error b ↔ FirstRefused t.keys b := by
  have hentries : byId t = .error b ↔ t.entries.mapM readEntry = .error b := by
    change Table.ofList <$> t.entries.mapM readEntry = .error b ↔ _
    cases t.entries.mapM readEntry <;> simp [Functor.map, Except.map]
  rw [hentries, mapM_eq_error_iff]
  constructor
  · rintro ⟨before, e, after, heq, hbefore, he⟩
    refine ⟨before.map Prod.fst, e.1, after.map Prod.fst, ?_, ?_, readEntry_eq_error_iff.1 he⟩
    · rw [Table.keys, heq, List.map_append, List.map_cons]
    · exact List.forall_mem_map.2 fun a ha => readEntry_succeeds_iff.1 (hbefore a ha)
  · rintro ⟨keys, key, keys', heq, hkeys, hkey⟩
    obtain ⟨before, rest, hsplit, rfl, hrest⟩ := List.map_eq_append_iff.1 heq
    obtain ⟨e, after, rfl, rfl, -⟩ := List.map_eq_cons_iff.1 hrest
    refine ⟨before, e, after, hsplit, ?_, readEntry_eq_error_iff.2 hkey⟩
    exact fun a ha => readEntry_succeeds_iff.2 (List.forall_mem_map.1 hkeys a ha)

/-- Of the entries whose keys write an identifier, the last one counts. -/
theorem get?_byId_iff (h : byId t = .ok u) :
    u.get? id = some v ↔ ∃ key, LastWriting t id (key, v) := by
  obtain ⟨l, hl, rfl⟩ := byId_eq_ok_iff.1 h
  have hmap := map_eq_of_mapM hl
  -- The lists correspond entry by entry, and so do their parts.
  have hkeys : ∀ {es : List (String × ν)} {ps : List (Int × ν)}, es.map readEntry = ps.map .ok →
      (id ∉ ps.map Prod.fst ↔ ∀ e ∈ es, ¬ Integer.Writes e.1 id) := by
    intro es ps heq
    have hmem : ∀ p : Int × ν, p ∈ ps ↔ ∃ e ∈ es, readEntry e = .ok p := by
      intro p
      rw [← List.mem_map, heq, List.mem_map_of_injective fun _ _ => Except.ok.inj]
    simp only [List.mem_map, hmem, readEntry_eq_ok_iff]
    constructor
    · intro hnot e he hwrites
      exact hnot ⟨(id, e.2), ⟨e, he, hwrites, rfl⟩, rfl⟩
    · rintro hall ⟨p, ⟨e, he, hwrites, -⟩, rfl⟩
      exact hall e he hwrites
  rw [Table.get?_ofList_iff]
  constructor
  · rintro ⟨before, after, rfl, hafter⟩
    rw [List.map_append, List.map_cons] at hmap
    obtain ⟨before', rest, hsplit, -, hrest⟩ := List.map_eq_append_iff.1 hmap
    obtain ⟨⟨key, w⟩, after', rfl, he, hafter'⟩ := List.map_eq_cons_iff.1 hrest
    obtain ⟨hwrites, rfl⟩ := readEntry_eq_ok_iff.1 he
    exact ⟨key, before', after', hsplit, hwrites, (hkeys hafter').1 hafter⟩
  · rintro ⟨key, before, after, hsplit, hwrites, hafter⟩
    have he : readEntry (key, v) = .ok (id, v) := readEntry_eq_ok_iff.2 ⟨hwrites, rfl⟩
    rw [hsplit, List.map_append, List.map_cons, he] at hmap
    obtain ⟨before', rest, hl', -, hrest⟩ := List.map_eq_append_iff.1 hmap.symm
    obtain ⟨p, after', rfl, hp, hafter'⟩ := List.map_eq_cons_iff.1 hrest
    cases hp
    exact ⟨before', after', hl', (hkeys hafter'.symm).2 hafter⟩

/-- A table whose keys are read holds nothing under the text of an identifier that none writes. -/
theorem get?_toString_eq_none (h : byId t = .ok u) (hid : u.get? id = none) :
    t.get? (toString id) = none := by
  cases hget : t.get? (toString id) with
  | none => rfl
  | some v =>
    have hkey : toString id ∈ t.keys := Table.mem_keys_iff.2 ⟨v, hget⟩
    obtain ⟨i, hi⟩ := byId_succeeds_iff.1 ⟨u, h⟩ _ hkey
    rw [hi.eq_of_toString] at hi
    obtain ⟨⟨key, w⟩, hlast⟩ := exists_lastWriting (Table.get?_eq_some_iff.1 hget) hi
    rw [(get?_byId_iff h).2 ⟨key, hlast⟩] at hid
    cases hid

theorem get?_byId_of_lastWriting (h : byId t = .ok u) (he : LastWriting t id e) :
    u.get? id = some e.2 := (get?_byId_iff h).2 ⟨e.1, he⟩

/-- Where an identifier has no other spelling, its decimal text finds what the identifier does. -/
theorem get?_toString_of_lastWriting
    (hkeys : ∀ key ∈ t.keys, Integer.Writes key id → key = toString id) (h : LastWriting t id e) :
    t.get? (toString id) = some e.2 := by
  have hmem := h.mem
  obtain ⟨-, -, -, hwrites, -⟩ := h
  rw [← hkeys e.1 (List.mem_map_of_mem hmem) hwrites]
  exact Table.get?_eq_some_iff.2 hmem

end Servo
end RobotHand
