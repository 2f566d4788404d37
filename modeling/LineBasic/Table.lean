/-!
# Tables

A table keeps one entry for each key, in the order in which the keys first came up. Setting a key
that is there replaces its entry in place.
-/

namespace LineBasic

/-- Entries under keys. -/
structure Table (κ α : Type) where
  entries : List (κ × α)
deriving Inhabited

namespace Table

variable {κ α : Type}

/-- The table without entries. -/
def empty : Table κ α := ⟨[]⟩

/-- The entries in ascending order of their names. -/
def sorted (t : Table String α) : List (String × α) :=
  t.entries.mergeSort fun a b => decide (a.1 ≤ b.1)

variable [DecidableEq κ]

/-- The entry under a key. -/
def get? (t : Table κ α) (key : κ) : Option α :=
  (t.entries.find? fun e => e.1 == key).map Prod.snd

/-- Put an entry into a list of entries, in place of one under the same key. -/
def putInto (key : κ) (a : α) : List (κ × α) → List (κ × α)
  | [] => [(key, a)]
  | e :: rest => if e.1 = key then (key, a) :: rest else e :: putInto key a rest

/-- The table with an entry set. -/
def set (t : Table κ α) (key : κ) (a : α) : Table κ α :=
  ⟨putInto key a t.entries⟩

/-- The table with entries set one after the other. -/
def setAll (t : Table κ α) (entries : List (κ × α)) : Table κ α :=
  entries.foldl (fun t e => t.set e.1 e.2) t

@[simp] theorem get?_empty (key : κ) : (empty : Table κ α).get? key = none := rfl

/-- A key reads as what it was set to, and every other key as before. -/
theorem get?_set (t : Table κ α) (key other : κ) (a : α) :
    (t.set key a).get? other = if key = other then some a else t.get? other := by
  obtain ⟨entries⟩ := t
  simp only [set, get?]
  induction entries with
  | nil => by_cases h : key = other <;> simp [putInto, h]
  | cons e rest ih =>
      by_cases he : e.1 = key
      · by_cases h : key = other
        · simp [putInto, he, h]
        · simp [putInto, he, h]
      · simp only [putInto, if_neg he]
        by_cases ho : e.1 = other
        · have : key ≠ other := fun h => he (ho.trans h.symm)
          simp [ho, this]
        · simpa [ho] using ih

end Table

end LineBasic
