import LineBasic.Token.Reading

/-!
# Facts about readers

What a reader takes off the front, and lists. The lists of a program line are read in one way: an
item, and as long as a mark comes next, further ones. `separated` is that way, over a reader of one
item; the readers of lists are cases of it. What is read is a list of what one item can be, and
items joined by the mark are read back.
-/

namespace LineBasic

namespace Reading

variable {α β : Type} {P : Lexeme → Prop} {ts rest : List Lexeme}

theorem after?_eq_some {l : Lexeme} (h : after? l ts = some rest) : ts = l :: rest := by
  unfold after? at h
  split at h
  · split at h
    · rename_i heq
      cases h
      rw [heq]
    · cases h
  · cases h

theorem after?_cons (l : Lexeme) (ts : List Lexeme) : after? l (l :: ts) = some ts :=
  if_pos rfl

theorem after?_eq_none {l : Lexeme} (h : ∀ l' ∈ ts.head?, l' ≠ l) : after? l ts = none := by
  cases ts with
  | nil => rfl
  | cons l' ts => exact if_neg (h l' rfl)

theorem require_eq_ok {l : Lexeme} (h : require l ts = .ok rest) : ts = l :: rest := by
  unfold require at h
  split at h
  · split at h
    · rename_i heq
      cases h
      rw [heq]
    · cases h
  · cases h

theorem require_cons (l : Lexeme) (ts : List Lexeme) : require l (l :: ts) = .ok ts :=
  if_pos rfl

theorem after?_suffix {l : Lexeme} (h : after? l ts = some rest) : rest <:+ ts :=
  after?_eq_some h ▸ List.suffix_cons l rest

theorem require_suffix {l : Lexeme} (h : require l ts = .ok rest) : rest <:+ ts :=
  require_eq_ok h ▸ List.suffix_cons l rest

/-- What is left over has what all lexemes have. -/
theorem forall_of_suffix (hts : ∀ l ∈ ts, P l) (h : rest <:+ ts) : ∀ l ∈ rest, P l :=
  fun l hl => hts l (h.subset hl)

theorem forall_of_cons {l : Lexeme} (hts : ∀ l' ∈ l :: ts, P l') : ∀ l' ∈ ts, P l' :=
  forall_of_suffix hts (List.suffix_cons l ts)

/-- What is read as a list are items, at least one. -/
theorem separated_fits {R : α → Prop} {item : List Lexeme → Reading α}
    (hitem : ∀ ts a rest, (∀ l ∈ ts, P l) → item ts = .ok (a, rest) → R a ∧ rest <:+ ts)
    {separator : Mark} {wanted : Wanted} {count : Nat} {as : List α} (hts : ∀ l ∈ ts, P l)
    (h : separated item separator wanted count ts = .ok (as, rest)) :
    as ≠ [] ∧ (∀ a ∈ as, R a) ∧ rest <:+ ts := by
  induction count generalizing ts as with
  | zero => cases h
  | succ count ih =>
      rw [separated] at h
      split at h
      · cases h
      · rename_i a rest₁ ha
        obtain ⟨hR, hsuf⟩ := hitem _ _ _ hts ha
        split at h
        · cases h
          exact ⟨List.cons_ne_nil _ _, List.forall_mem_singleton.mpr hR, hsuf⟩
        · rename_i rest₂ hsep
          have hsuf₂ := (after?_suffix hsep).trans hsuf
          split at h
          · cases h
          · rename_i as' rest₃ has
            cases h
            obtain ⟨-, hRs, hsuf₃⟩ := ih (forall_of_suffix hts hsuf₂) has
            exact ⟨List.cons_ne_nil _ _, List.forall_mem_cons.mpr ⟨hR, hRs⟩, hsuf₃.trans hsuf₂⟩

/-- Items joined by the mark are read back, if each of them is read back in front of the mark and
of what follows the list. -/
theorem separated_intercalate {item : List Lexeme → Reading α} {separator : Mark}
    {wanted : Wanted} {f : β → α} {g : β → List Lexeme}
    (hrest : after? (.mark separator) rest = none) {bs : List β} (hne : bs ≠ [])
    (hitem : ∀ b ∈ bs, item (g b ++ rest) = .ok (f b, rest) ∧
      ∀ more, item (g b ++ .mark separator :: more) = .ok (f b, .mark separator :: more))
    {count : Nat} (hcount : bs.length ≤ count) :
    separated item separator wanted count ([.mark separator].intercalate (bs.map g) ++ rest) =
      .ok (bs.map f, rest) := by
  induction bs generalizing count with
  | nil => exact absurd rfl hne
  | cons b bs ih =>
      cases count with
      | zero => exact absurd hcount (Nat.not_succ_le_zero _)
      | succ count =>
          obtain ⟨hlast, hmore⟩ := hitem b List.mem_cons_self
          cases bs with
          | nil =>
              rw [List.map_singleton, List.intercalate_singleton, separated, hlast]
              simp only [hrest]
              rfl
          | cons b' bs =>
              have htail := ih (List.cons_ne_nil _ _)
                (fun b'' hb'' => hitem b'' (List.mem_cons_of_mem _ hb''))
                (Nat.le_of_succ_le_succ hcount)
              rw [List.map_cons, List.map_cons, List.intercalate_cons_cons, separated]
              simp only [List.append_assoc, List.cons_append, List.nil_append]
              rw [hmore]
              simp only [after?_cons]
              rw [← List.map_cons, htail]
              rfl

end Reading

end LineBasic
