import LineBasic.Table

/-!
# Tables with entries set one after the other

Of the entries that are set under a key the last one counts, and what the table held before counts
only if there is none. A table that was built so has one entry for each key, so the order of its
entries is of no matter.
-/

namespace LineBasic

namespace Table

variable {κ κ' α : Type} [DecidableEq κ] [DecidableEq κ']

/-- What a list of entries has under a key, in order. -/
def under (key : κ) (entries : List (κ × α)) : List α :=
  entries.filterMap fun e => if e.1 = key then some e.2 else none

theorem under_cons_self (key : κ) (a : α) (rest : List (κ × α)) :
    under key ((key, a) :: rest) = a :: under key rest := by
  simp [under]

theorem under_cons_ne {key : κ} {e : κ × α} (h : e.1 ≠ key) (rest : List (κ × α)) :
    under key (e :: rest) = under key rest := by
  simp [under, h]

theorem under_append (key : κ) (entries rest : List (κ × α)) :
    under key (entries ++ rest) = under key entries ++ under key rest :=
  List.filterMap_append

theorem mem_under_iff {key : κ} {entries : List (κ × α)} {a : α} :
    a ∈ under key entries ↔ (key, a) ∈ entries := by
  rw [under, List.mem_filterMap]
  constructor
  · rintro ⟨⟨k, b⟩, he, hb⟩
    split at hb
    · rename_i hk
      cases hk
      cases hb
      exact he
    · cases hb
  · exact fun h => ⟨(key, a), h, if_pos rfl⟩

theorem under_eq_nil {key : κ} {entries : List (κ × α)} (h : ∀ e ∈ entries, e.1 ≠ key) :
    under key entries = [] :=
  List.filterMap_eq_nil_iff.mpr fun e he => if_neg (h e he)

/-- Entries whose keys are replaced, those without a new key left out. -/
theorem under_filterMap {f : κ → Option κ'} {key : κ} {key' : κ'}
    (h : ∀ k, f k = some key' ↔ k = key) (entries : List (κ × α)) :
    under key' (entries.filterMap fun e => (f e.1).map (·, e.2)) = under key entries := by
  rw [under, under, List.filterMap_filterMap]
  refine congrArg (List.filterMap · entries) (funext fun e => ?_)
  cases hf : f e.1 with
  | none =>
      have hne : e.1 ≠ key := fun heq => by cases hf.symm.trans ((h e.1).mpr heq)
      rw [Option.map_none, Option.bind_none, if_neg hne]
  | some k =>
      rw [Option.map_some, Option.bind_some]
      by_cases hk : k = key'
      · subst hk
        rw [if_pos rfl, if_pos ((h e.1).mp hf)]
      · have hne : e.1 ≠ key := fun heq =>
          hk (Option.some.inj (hf.symm.trans ((h e.1).mpr heq)))
        rw [if_neg hk, if_neg hne]

/-- Of the entries that are set under a key the last one counts. -/
theorem get?_setAll (t : Table κ α) (entries : List (κ × α)) (key : κ) :
    (t.setAll entries).get? key = (under key entries).getLast?.or (t.get? key) := by
  induction entries generalizing t with
  | nil => rfl
  | cons e rest ih =>
      obtain ⟨k, a⟩ := e
      have hset : (t.setAll ((k, a) :: rest)).get? key = ((t.set k a).setAll rest).get? key := rfl
      rw [hset, ih, get?_set]
      by_cases hk : k = key
      · subst hk
        rw [if_pos rfl, under_cons_self, List.getLast?_cons, Option.some_or]
        cases (under k rest).getLast? <;> rfl
      · rw [if_neg hk, under_cons_ne hk]

/-! ## One entry for each key -/

/-- No key has two entries. -/
def Distinct (t : Table κ α) : Prop :=
  (t.entries.map Prod.fst).Nodup

instance (t : Table κ α) : Decidable t.Distinct :=
  inferInstanceAs (Decidable (List.Nodup _))

omit [DecidableEq κ] in
theorem distinct_empty : (empty : Table κ α).Distinct := List.nodup_nil

theorem mem_putInto {key k : κ} {a : α} {entries : List (κ × α)}
    (h : k ∈ (putInto key a entries).map Prod.fst) : k = key ∨ k ∈ entries.map Prod.fst := by
  induction entries with
  | nil => exact .inl (List.mem_singleton.mp h)
  | cons e rest ih =>
      unfold putInto at h
      split at h
      · rcases List.mem_cons.mp h with h | h
        · exact .inl h
        · exact .inr (List.mem_cons_of_mem _ h)
      · rcases List.mem_cons.mp h with h | h
        · exact .inr (List.mem_cons.mpr (.inl h))
        · exact (ih h).imp_right (List.mem_cons_of_mem _)

theorem Distinct.set {t : Table κ α} (h : t.Distinct) (key : κ) (a : α) :
    (t.set key a).Distinct := by
  obtain ⟨entries⟩ := t
  change ((putInto key a entries).map Prod.fst).Nodup
  change (entries.map Prod.fst).Nodup at h
  induction entries with
  | nil => exact List.nodup_cons.mpr ⟨List.not_mem_nil, List.nodup_nil⟩
  | cons e rest ih =>
      obtain ⟨hfresh, hrest⟩ := List.nodup_cons.mp h
      unfold putInto
      split
      case isTrue heq =>
        subst heq
        exact h
      case isFalse hne =>
        refine List.nodup_cons.mpr ⟨fun hmem => ?_, ih hrest⟩
        exact (mem_putInto hmem).elim hne hfresh

theorem Distinct.setAll {t : Table κ α} (h : t.Distinct) (entries : List (κ × α)) :
    (t.setAll entries).Distinct := by
  induction entries generalizing t with
  | nil => exact h
  | cons e rest ih => exact ih (h.set e.1 e.2)

/-- In a table without double keys there is one entry under a key, or none. -/
theorem Distinct.under_entries {t : Table κ α} (h : t.Distinct) (key : κ) :
    under key t.entries = (t.get? key).toList := by
  obtain ⟨entries⟩ := t
  change (entries.map Prod.fst).Nodup at h
  induction entries with
  | nil => rfl
  | cons e rest ih =>
      obtain ⟨k, a⟩ := e
      obtain ⟨hfresh, hrest⟩ := List.nodup_cons.mp h
      by_cases hk : k = key
      · subst hk
        have hnone : under k rest = [] :=
          under_eq_nil fun e he heq => hfresh (List.mem_map.mpr ⟨e, he, heq⟩)
        rw [under_cons_self, hnone]
        simp [get?]
      · rw [under_cons_ne hk, ih hrest]
        simp [get?, hk]

end Table

end LineBasic
