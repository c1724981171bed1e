/-! Finite maps that keep the order in which their keys first appeared. -/
namespace RobotHand

/-- Each key occurs once, at the place of its first insertion. -/
structure Table (κ : Type) (ν : Type) where
  entries : List (κ × ν)
  nodup_keys : (entries.map Prod.fst).Nodup

namespace Table

variable {κ ν : Type}

def empty : Table κ ν := ⟨[], List.nodup_nil⟩

def single (k : κ) (v : ν) : Table κ ν := ⟨[(k, v)], by simp⟩

instance : Inhabited (Table κ ν) := ⟨empty⟩

@[ext] theorem ext {t u : Table κ ν} (h : t.entries = u.entries) : t = u := by
  cases t; cases u; simp_all

instance [DecidableEq κ] [DecidableEq ν] : DecidableEq (Table κ ν) := fun t u =>
  decidable_of_iff (t.entries = u.entries) ⟨ext, fun h => h ▸ rfl⟩

/-- The keys in order of first insertion. -/
def keys (t : Table κ ν) : List κ := t.entries.map Prod.fst

variable [DecidableEq κ]

/-- The first value under a key. -/
def find (k : κ) : List (κ × ν) → Option ν
  | [] => none
  | (k', v) :: r => if k' = k then some v else find k r

/-- Replaces the value under a key in place, or appends a new entry. -/
def write (k : κ) (v : ν) : List (κ × ν) → List (κ × ν)
  | [] => [(k, v)]
  | (k', v') :: r => if k' = k then (k, v) :: r else (k', v') :: write k v r

theorem map_fst_write (k : κ) (v : ν) (l : List (κ × ν)) :
    (write k v l).map Prod.fst =
      if k ∈ l.map Prod.fst then l.map Prod.fst else l.map Prod.fst ++ [k] := by
  induction l with
  | nil => simp [write]
  | cons e r ih =>
    obtain ⟨k', v'⟩ := e
    by_cases h : k' = k
    · simp [write, h]
    · by_cases hk : k ∈ r.map Prod.fst
      · simp only [write, h, if_false, List.map_cons, ih, hk, if_true, List.mem_cons, or_true]
      · have h' : ¬ k = k' := fun e => h e.symm
        simp only [write, h, if_false, List.map_cons, ih, hk, List.mem_cons, h', or_self,
          List.cons_append]

def get? (t : Table κ ν) (k : κ) : Option ν := find k t.entries

/-- Sets the value under a key; a key that is already there keeps its place. -/
def put (t : Table κ ν) (k : κ) (v : ν) : Table κ ν :=
  ⟨write k v t.entries, by
    rw [map_fst_write]
    split
    · exact t.nodup_keys
    · next h =>
      refine List.nodup_append.2 ⟨t.nodup_keys, by simp, ?_⟩
      intro a ha b hb e
      rw [List.mem_singleton] at hb
      subst hb; subst e
      exact h ha⟩

def erase (t : Table κ ν) (k : κ) : Table κ ν :=
  ⟨t.entries.filter fun e => e.1 ≠ k, (List.filter_sublist.map Prod.fst).nodup t.nodup_keys⟩

def putAll (t : Table κ ν) (l : List (κ × ν)) : Table κ ν :=
  l.foldl (fun t e => t.put e.1 e.2) t

/-- Of equal keys the last value wins and the first place stays. -/
def ofList (l : List (κ × ν)) : Table κ ν := empty.putAll l

@[simp] theorem find_write_self (k : κ) (v : ν) (l : List (κ × ν)) :
    find k (write k v l) = some v := by
  induction l with
  | nil => simp [write, find]
  | cons e r ih =>
    obtain ⟨k', v'⟩ := e
    by_cases h : k' = k <;> simp [write, find, h, ih]

theorem find_write_of_ne {k k' : κ} (h : k' ≠ k) (v : ν) (l : List (κ × ν)) :
    find k (write k' v l) = find k l := by
  induction l with
  | nil => simp [write, find, h]
  | cons e r ih =>
    obtain ⟨j, w⟩ := e
    by_cases hj : j = k'
    · subst hj; simp [write, find, h]
    · by_cases hk : j = k
      · subst hk; simp [write, find, hj]
      · simp [write, find, hj, hk, ih]

@[simp] theorem get?_empty (k : κ) : (empty : Table κ ν).get? k = none := rfl

theorem get?_put (t : Table κ ν) (k k' : κ) (v : ν) :
    (t.put k' v).get? k = if k' = k then some v else t.get? k := by
  by_cases h : k' = k
  · subst h; simp [put, get?]
  · simp [put, get?, h, find_write_of_ne h]

end Table
end RobotHand
