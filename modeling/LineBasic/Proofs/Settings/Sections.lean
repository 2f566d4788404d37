import LineBasic.Proofs.Outcome
import LineBasic.Proofs.Table
import LineBasic.Settings.Ini

/-!
# The options of a section

A configuration file that gives an option of a section twice cannot be read. So the options of a
section are a table with one entry for each of them, also where they come from the section
`DEFAULT`.
-/

namespace LineBasic.Ini

/-- What an option is called. -/
def Entry.key (e : Entry) : String × String :=
  (e.owner, e.option)

/-- No section has given an option twice so far. -/
def Reader.Distinct (r : Reader) : Prop :=
  (r.entries.map Entry.key).Nodup

namespace Reader

variable {r : Reader}

theorem Distinct.congr (h : r.Distinct) {r' : Reader} (hentries : r'.entries = r.entries) :
    r'.Distinct := by
  unfold Distinct
  rw [hentries]
  exact h

/-- A value that goes on is that of the same option. -/
theorem Distinct.extend (h : r.Distinct) (text : List Char) :
    Meets Distinct (fun _ => True) (r.extend text) := by
  unfold Reader.extend
  split
  · rename_i hentries
    unfold Distinct at h
    rw [hentries] at h
    exact h
  · trivial

theorem Distinct.openSection (h : r.Distinct) (name : String) :
    Meets Distinct (fun _ => True) (r.openSection name) := by
  unfold Reader.openSection
  split
  · trivial
  · exact h.congr rfl

/-- An option that is there already cannot be given. -/
theorem Distinct.addOption (h : r.Distinct) (place : String) (text : List Char) :
    Meets Distinct (fun _ => True) (r.addOption place text) := by
  unfold Reader.addOption
  dsimp only
  split
  case isTrue => trivial
  case isFalse hfresh =>
    refine List.nodup_cons.mpr ⟨fun hmem => hfresh ?_, h⟩
    obtain ⟨e, he, hkey⟩ := List.mem_map.mp hmem
    obtain ⟨howner, hoption⟩ := Prod.mk.inj hkey
    exact List.any_eq_true.mpr ⟨e, he, by simpa using ⟨howner, hoption⟩⟩

theorem Distinct.blankLine (h : r.Distinct) : r.blankLine.Distinct := by
  unfold Reader.blankLine
  split
  · have hextend := h.extend []
    split
    · rename_i heq
      exact hextend.of_ok heq
    · exact h
  · exact h

theorem Distinct.freshLine (h : r.Distinct) (indent : Nat) (content : List Char) :
    Meets Distinct (fun _ => True) (r.freshLine indent content) := by
  have hindent : Distinct { r with indent := indent } := h.congr rfl
  unfold Reader.freshLine
  dsimp only
  split
  · exact hindent.openSection _
  · split
    · trivial
    · exact hindent.addOption _ content

theorem Distinct.line (h : r.Distinct) (text : List Char) :
    Meets Distinct (fun _ => True) (r.line text) := by
  unfold Reader.line
  dsimp only
  split
  · exact h.blankLine
  · split
    · exact h
    · split
      · exact h.extend _
      · exact h.freshLine _ _

theorem Distinct.lines (h : r.Distinct) (texts : List (List Char)) :
    Meets Distinct (fun _ => True) (texts.foldlM Reader.line r) := by
  induction texts generalizing r with
  | nil => exact h
  | cons text rest ih =>
      rw [List.foldlM_cons]
      have hline := h.line text
      cases hr : r.line text with
      | error => trivial
      | ok r' => exact ih (hline.of_ok hr)

end Reader

/-- In a file that can be read no section gives an option twice. -/
theorem nodup_of_read {text : List Char} {f : File} (h : read text = .ok f) :
    (f.entries.map Entry.key).Nodup := by
  have hlines := Reader.Distinct.lines (r := .start) List.nodup_nil (Text.feedLines text)
  unfold read at h
  cases hr : (Text.feedLines text).foldlM Reader.line Reader.start with
  | error =>
      rw [hr] at h
      cases h
  | ok r =>
      rw [hr] at h
      change (if r.spoiled = true then _ else _) = _ at h
      split at h
      · cases h
      · cases h
        rw [List.map_reverse]
        exact List.pairwise_reverse.mpr ((hlines.of_ok hr).imp Ne.symm)

/-- A section does not give itself an option twice. -/
theorem nodup_own {f : File} (h : (f.entries.map Entry.key).Nodup) (name : String) :
    ((f.own name).map Prod.fst).Nodup := by
  rw [File.own, List.map_map]
  generalize f.entries = entries at h
  induction entries with
  | nil => exact List.nodup_nil
  | cons e rest ih =>
      obtain ⟨hfresh, hrest⟩ := List.nodup_cons.mp h
      by_cases howner : e.owner = name
      · rw [List.filter_cons_of_pos (by simpa using howner)]
        refine List.nodup_cons.mpr ⟨fun hmem => hfresh ?_, ih hrest⟩
        obtain ⟨e', he', hoption⟩ := List.mem_map.mp hmem
        obtain ⟨he', howner'⟩ := List.mem_filter.mp he'
        refine List.mem_map.mpr ⟨e', he', Prod.ext ?_ hoption⟩
        exact (eq_of_beq howner').trans howner.symm
      · rw [List.filter_cons_of_neg (by simpa using howner)]
        exact ih hrest

/-- The options of a section of a file that can be read. -/
theorem distinct_options {text : List Char} {f : File} (h : read text = .ok f) (name : String) :
    (f.options name).Distinct := by
  unfold File.options
  split
  · exact Table.Distinct.setAll (nodup_own (nodup_of_read h) defaultSection) _
  · exact Table.distinct_empty

end LineBasic.Ini
