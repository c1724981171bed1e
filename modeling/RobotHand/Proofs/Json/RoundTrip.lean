import RobotHand.Proofs.Json.Tokens

/-! A printed value is read back. -/
namespace RobotHand.Json

mutual

def nesting : Json → Nat
  | .array items => nestingOfItems items + 1
  | .object fields => nestingOfFields fields + 1
  | _ => 0

def nestingOfItems : List Json → Nat
  | [] => 0
  | v :: vs => max (nesting v) (nestingOfItems vs)

def nestingOfFields : List (String × Json) → Nat
  | [] => 0
  | (_, v) :: fields => max (nesting v) (nestingOfFields fields)

end

namespace Assembly

variable {limit : Nat} {s s' s'' : Assembly} {t : Token} {ts ts' : List Token}
  {stack : List Container}

/-- Tokens lead from one state to another within a limit. -/
def Reaches (limit : Nat) (s : Assembly) (ts : List Token) (s' : Assembly) : Prop :=
  ts.foldlM (stepWithin limit) s = some s'

theorem reaches_nil (s : Assembly) : Reaches limit s [] s := rfl

theorem Reaches.append (h : Reaches limit s ts s') (h' : Reaches limit s' ts' s'') :
    Reaches limit s (ts ++ ts') s'' := by
  rw [Reaches, List.foldlM_append, h]
  exact h'

theorem Reaches.cons (hstep : s.step t = some s') (hdepth : s'.depth ≤ limit)
    (h : Reaches limit s' ts s'') : Reaches limit s (t :: ts) s'' := by
  have hwithin : stepWithin limit s t = some s' := by
    rw [stepWithin, hstep]
    exact if_neg (Nat.not_lt.2 hdepth)
  rw [Reaches, List.foldlM_cons, hwithin]
  exact h

theorem exists_tokens_cons (v : Json) : ∃ t ts, tokens v = t :: ts ∧ t ≠ .closeArray := by
  cases v with
  | array items => cases items <;> exact ⟨_, _, tokens.eq_def _, Token.noConfusion⟩
  | object fields =>
    rcases fields with _ | ⟨⟨name, v⟩, fields⟩ <;> exact ⟨_, _, tokens.eq_def _, Token.noConfusion⟩
  | _ => exact ⟨_, _, tokens.eq_def _, Token.noConfusion⟩

/-- The first item of an array is read like any value. -/
theorem Reaches.first_item {v : Json}
    (h : Reaches limit (.wantValue (.array [] :: stack)) (tokens v ++ ts) s) :
    Reaches limit (.wantItem stack) (tokens v ++ ts) s := by
  obtain ⟨t, ts', htokens, hne⟩ := exists_tokens_cons v
  -- The two states part only at a closing bracket, which starts no value.
  have hstep : stepWithin limit (.wantItem stack) t =
      stepWithin limit (.wantValue (.array [] :: stack)) t := by
    cases t <;> first | rfl | exact absurd rfl hne
  rw [htokens, List.cons_append, Reaches, List.foldlM_cons] at h ⊢
  rw [hstep]
  exact h

mutual

/-- The tokens of a value make up the value. -/
theorem reaches_value : ∀ (v : Json) (stack : List Container),
    stack.length + nesting v ≤ limit →
      Reaches limit (.wantValue stack) (tokens v) (.complete stack v)
  | .null, stack, h => .cons rfl h (reaches_nil _)
  | .bool b, stack, h => .cons rfl h (reaches_nil _)
  | .int i, stack, h => .cons rfl h (reaches_nil _)
  | .real x, stack, h => .cons rfl h (reaches_nil _)
  | .text s, stack, h => .cons rfl h (reaches_nil _)
  | .array [], stack, h => by
    rw [nesting, nestingOfItems] at h
    exact .cons rfl h (.cons rfl (Nat.le_of_lt h) (reaches_nil _))
  | .array (v :: vs), stack, h => by
    rw [nesting, nestingOfItems] at h
    have hv := reaches_value v (.array [] :: stack) (by rw [List.length_cons]; omega)
    have hvs := reaches_items vs v [] stack (by omega)
    rw [tokens]
    exact .cons rfl (by rw [depth]; omega) (hv.append hvs).first_item
  | .object [], stack, h => by
    rw [nesting, nestingOfFields] at h
    exact .cons rfl h (.cons rfl (Nat.le_of_lt h) (reaches_nil _))
  | .object ((name, v) :: fields), stack, h => by
    rw [nesting, nestingOfFields] at h
    have hdepth : stack.length + 1 ≤ limit := by omega
    have hv := reaches_value v (.object [] name :: stack) (by rw [List.length_cons]; omega)
    have hfields := reaches_fields fields name v [] stack (by omega)
    rw [tokens]
    exact .cons rfl hdepth (.cons rfl hdepth (.cons rfl hdepth (hv.append hfields)))

theorem reaches_items : ∀ (vs : List Json) (v : Json) (items : List Json)
    (stack : List Container), stack.length + nestingOfItems vs + 1 ≤ limit →
      Reaches limit (.complete (.array items :: stack) v) (itemTokens vs ++ [.closeArray])
        (.complete stack (.array ((v :: items).reverse ++ vs)))
  | [], v, items, stack, h => by
    rw [List.append_nil]
    exact .cons rfl (by rw [depth]; omega) (reaches_nil _)
  | w :: vs, v, items, stack, h => by
    rw [nestingOfItems] at h
    have hw := reaches_value w (.array (v :: items) :: stack) (by rw [List.length_cons]; omega)
    have hvs := reaches_items vs w (v :: items) stack (by omega)
    rw [List.reverse_cons, List.append_assoc, List.singleton_append] at hvs
    rw [itemTokens, List.cons_append, List.append_assoc]
    exact .cons rfl (by rw [depth, List.length_cons]; omega) (hw.append hvs)

theorem reaches_fields : ∀ (fields : List (String × Json)) (name : String) (v : Json)
    (earlier : List (String × Json)) (stack : List Container),
    stack.length + nestingOfFields fields + 1 ≤ limit →
      Reaches limit (.complete (.object earlier name :: stack) v)
        (fieldTokens fields ++ [.closeObject])
        (.complete stack (.object (((name, v) :: earlier).reverse ++ fields)))
  | [], name, v, earlier, stack, h => by
    rw [List.append_nil]
    exact .cons rfl (by rw [depth]; omega) (reaches_nil _)
  | (name', w) :: fields, name, v, earlier, stack, h => by
    rw [nestingOfFields] at h
    have hdepth : stack.length + 1 ≤ limit := by omega
    have hw := reaches_value w (.object ((name, v) :: earlier) name' :: stack)
      (by rw [List.length_cons]; omega)
    have hfields := reaches_fields fields name' w ((name, v) :: earlier) stack (by omega)
    rw [List.reverse_cons, List.append_assoc, List.singleton_append] at hfields
    rw [fieldTokens, List.cons_append, List.cons_append, List.cons_append, List.append_assoc]
    exact .cons rfl hdepth (.cons rfl hdepth (.cons rfl hdepth (hw.append hfields)))

end

end Assembly

open Assembly Token

mutual

theorem nesting_readBack : ∀ v : Json, nesting (readBack v) = nesting v
  | .null | .bool _ | .int _ | .text _ => rfl
  | .real x => by
    rw [readBack]
    split <;> rfl
  | .array items => by
    rw [readBack, nesting, nesting, nesting_readBackItems items]
  | .object fields => by
    rw [readBack, nesting, nesting, nesting_readBackFields fields]

theorem nesting_readBackItems : ∀ vs : List Json,
    nestingOfItems (readBackItems vs) = nestingOfItems vs
  | [] => rfl
  | v :: vs => by
    rw [readBackItems, nestingOfItems, nestingOfItems, nesting_readBack v,
      nesting_readBackItems vs]

theorem nesting_readBackFields : ∀ fields : List (String × Json),
    nestingOfFields (readBackFields fields) = nestingOfFields fields
  | [] => rfl
  | (name, v) :: fields => by
    rw [readBackFields, nestingOfFields, nestingOfFields, nesting_readBack v,
      nesting_readBackFields fields]

end

theorem nestingOfFields_le {fields : List (String × Json)} {n : Nat}
    (h : ∀ f ∈ fields, nesting f.2 ≤ n) : nestingOfFields fields ≤ n := by
  induction fields with
  | nil => exact Nat.zero_le n
  | cons f fields ih =>
    obtain ⟨hf, hfields⟩ := List.forall_mem_cons.1 h
    exact Nat.max_le.2 ⟨hf, ih hfields⟩

theorem readBackFields_eq_self {fields : List (String × Json)}
    (h : ∀ f ∈ fields, readBack f.2 = f.2) : readBackFields fields = fields := by
  induction fields with
  | nil => rfl
  | cons f fields ih =>
    obtain ⟨hf, hfields⟩ := List.forall_mem_cons.1 h
    obtain ⟨name, v⟩ := f
    rw [readBackFields, hf, ih hfields]

theorem readBack_object {fields : List (String × Json)} (h : ∀ f ∈ fields, readBack f.2 = f.2) :
    readBack (.object fields) = .object fields := by
  rw [readBack, readBackFields_eq_self h]

/-- Where it is not nested too deep, a printed value is read back. -/
theorem readWithin_print (layout : Layout) (depth : Nat) {limit : Nat} {v : Json}
    (h : nesting v ≤ limit) : readWithin? limit (print layout depth v) = some (readBack v) := by
  have hscan := scans_print layout depth v [] endsWord_nil
  rw [List.append_nil, scan?] at hscan
  have hdepth : ([] : List Container).length + nesting (readBack v) ≤ limit := by
    rw [List.length_nil, Nat.zero_add, nesting_readBack v]
    exact h
  have hfold : (tokens (readBack v) ++ []).foldlM (stepWithin limit) start =
      some (.complete [] (readBack v)) := by
    rw [List.append_nil]
    exact reaches_value (readBack v) [] hdepth
  rw [readWithin?, hscan]
  change ((tokens (readBack v) ++ []).foldlM (stepWithin limit) start).bind finish = _
  rw [hfold]
  rfl

end RobotHand.Json
