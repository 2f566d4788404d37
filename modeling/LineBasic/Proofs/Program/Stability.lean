import LineBasic.Proofs.Program.Reload

/-!
# When a listing is stable

The listing of a program that was read from a text is always loaded. It comes back as it is, unless
one of its lines ends in an end-of-file mark. Such a mark can end a remark, because white space is
cut off behind a remark and the mark is not white space. When the listing is loaded the mark
stands at the end of the line, and there it is trimmed off. This is the only way in which a listing
changes: a constant `-0` becomes zero, but it is listed as zero in the first place.
-/

namespace LineBasic

/-- The end-of-file mark. -/
def Text.endMark : Char := '\x1a'

theorem Value.listing_relisted {v : Value} (h : v.Readable Lexeme.Valid) :
    v.relisted.listing = v.listing := by
  by_cases hv : v = .number (-0)
  · rw [hv]
    decide +kernel
  · rw [Value.relisted_eq h hv]

/-- What is read from a listing has the same listing. -/
theorem Statement.listing_relisted {s : Statement} (h : s.Readable Lexeme.Valid) :
    s.relisted.listing = s.listing := by
  cases s with
  | data items =>
      have hitems : (items.map Value.relisted).map Value.listing = items.map Value.listing := by
        rw [List.map_map]
        exact List.map_congr_left fun v hv => Value.listing_relisted (h.2 v hv)
      rw [relisted, listing, listing, hitems]
  | _ => rfl

theorem Statement.lineListing_relisted {ss : List Statement}
    (h : ReadableLine Lexeme.Valid ss) : lineListing (ss.map relisted) = lineListing ss := by
  rw [lineListing, lineListing, List.map_map]
  exact congrArg _ (List.map_congr_left fun s hs => listing_relisted (h.forall s hs))

namespace Line

theorem listing_eq_iff (l l' : Line) (hnumber : l'.number = l.number) :
    l'.listing = l.listing ↔
      Statement.lineListing l'.statements = Statement.lineListing l.statements := by
  rw [← String.toList_inj, toList_listing, toList_listing, hnumber, List.append_cancel_left_eq,
    List.cons.injEq, and_iff_right rfl, String.toList_inj]

/-- Of what does not break lines, only end-of-file marks are trimmed off. -/
theorem isTrimmed_iff {c : Char} (h : Text.isLineBreak c = false) :
    isTrimmed c = true ↔ c = Text.endMark := by
  have hfeed : c ≠ '\n' := fun heq => by
    rw [heq] at h
    exact absurd h (by decide)
  have hreturn : c ≠ '\r' := fun heq => by
    rw [heq] at h
    exact absurd h (by decide)
  rw [isTrimmed, beq_false_of_ne hfeed, beq_false_of_ne hreturn, Bool.false_or, Bool.false_or,
    beq_iff_eq, Text.endMark]

/-- Only an end-of-file mark is trimmed off a line without line breaks. -/
theorem trimmed_eq_iff {text : List Char} (h : ∀ c ∈ text, Text.isLineBreak c = false) :
    trimmed text = text ↔ text.getLast? ≠ some Text.endMark := by
  have htrimmed : trimmed text = Text.dropEnd isTrimmed text := rfl
  have hmark (c : Char) (hc : c ∈ text.getLast?) : isTrimmed c = true ↔ c = Text.endMark :=
    isTrimmed_iff (h c (List.mem_of_getLast? hc))
  rw [htrimmed, Text.dropEnd_eq_self_iff]
  constructor
  · exact fun hlast hend => Bool.eq_false_iff.mp (hlast _ hend) ((hmark _ hend).mpr rfl)
  · refine fun hne c hc => Bool.eq_false_iff.mpr fun htrue => hne ?_
    rw [← (hmark c hc).mp htrue]
    exact hc

/-- A line that was read, and what is read from its listing. -/
theorem listing_trimmed_listing {index : Option Int} {text : List Char} {l : Line}
    (h : ofText index text = .ok l) (index' : Option Int) :
    ∃ l', ofText index' (trimmed l.listing.toList) = .ok l' ∧ l'.number = l.number ∧
      (l'.listing = l.listing ↔ trimmed l.listing.toList = l.listing.toList) := by
  obtain ⟨remark, hremark, hread, hsame⟩ := ofText_trimmed_listing h
  refine ⟨_, hread index', rfl, ?_⟩
  have hreadable := Statement.readable_remarked (valid_of_ofText h) hremark
  rw [listing_eq_iff l
      ⟨l.number, (Statement.remarked remark l.statements).map Statement.relisted⟩ rfl,
    Statement.lineListing_relisted hreadable, hsame]

theorem map_listing_eq_iff {P : Line → Prop} {ls ls' : List Line}
    (h : List.Forall₂ (fun l l' => l'.number = l.number ∧ (l'.listing = l.listing ↔ P l)) ls ls') :
    ls'.map listing = ls.map listing ↔ ∀ l ∈ ls, P l := by
  induction h with
  | nil => exact ⟨fun _ l hl => (nomatch hl), fun _ => rfl⟩
  | cons hsame _ ih =>
      rw [List.map_cons, List.map_cons, List.cons.injEq, hsame.2, ih, List.forall_mem_cons]

end Line

namespace Program

/-- Programs that were read from texts have the same listing just if their lines have. -/
theorem listing_eq_iff {s t : String} {p q : Program} (hp : (load (.text s)).2 = .ok p)
    (hq : (load (.text t)).2 = .ok q) :
    q.listing = p.listing ↔ q.listedLines = p.listedLines := by
  constructor
  · intro h
    have hlines : Text.lines q.listing.toList = Text.lines p.listing.toList := by rw [h]
    rw [listing, listing, Text.lines_intercalate (breakless_of_load hq),
      Text.lines_intercalate (breakless_of_load hp)] at hlines
    exact List.map_injective_iff.mpr (fun _ _ => String.toList_inj.mp) hlines
  · intro h
    rw [listing, listing, h]

/-- The listing of a program that was read from a text is loaded. What is loaded has the same
listing just if no line of the listing ends in an end-of-file mark. -/
theorem listing_stable_iff {s : String} {p : Program} (h : (load (.text s)).2 = .ok p) :
    ∃ q, (load (.text p.listing)).2 = .ok q ∧
      (q.listing = p.listing ↔
        ∀ l ∈ p.lines, l.listing.toList.getLast? ≠ some Text.endMark) := by
  have hread (l : Line) (hl : l ∈ p.lines) (index : Option Int) :
      ∃ l', Line.ofText index (Line.trimmed l.listing.toList) = .ok l' ∧ l'.number = l.number ∧
        (l'.listing = l.listing ↔ l.listing.toList.getLast? ≠ some Text.endMark) := by
    obtain ⟨index', text, -, htext⟩ := (loaded_of_load h).read l hl
    obtain ⟨-, hbreak⟩ := breakless_of_load h l.listing (List.mem_map_of_mem hl)
    rw [← Line.trimmed_eq_iff hbreak]
    exact Line.listing_trimmed_listing htext index
  obtain ⟨q, hq, hall⟩ := load_listing_lines h (fun l l' hsame => hsame.1) hread
  exact ⟨q, hq, (listing_eq_iff h hq).trans (Line.map_listing_eq_iff hall)⟩

theorem listing_stable_iff_zero :
    ∃ p, (load (.text "20 DATA -0\n10 PRINT (A) : REM  A\x1a")).2 = .ok p ∧
      ∃ q, (load (.text p.listing)).2 = .ok q ∧
        (q.listing = p.listing ↔
          ∀ l ∈ p.lines, l.listing.toList.getLast? ≠ some Text.endMark) := by
  obtain ⟨p, hp⟩ := exists_of_isOk
    (show (load (.text "20 DATA -0\n10 PRINT (A) : REM  A\x1a")).2.isOk = true by decide +kernel)
  exact ⟨p, hp, listing_stable_iff hp⟩

/-- A remark that ends in an end-of-file mark. The blank behind the mark keeps it from being trimmed
off when the program is loaded, but it is not listed. -/
theorem listing_unstable :
    ∃ p q, (load (.text "10 REM A\x1a ")).2 = .ok p ∧ (load (.text p.listing)).2 = .ok q ∧
      q.listing ≠ p.listing := by
  obtain ⟨p, hp, hreload⟩ := exists_of_any
    (show ((load (.text "10 REM A\x1a ")).2.toOption.any fun p =>
        (load (.text p.listing)).2.toOption.any fun q => q.listing != p.listing) = true by
      decide +kernel)
  obtain ⟨q, hq, hne⟩ := exists_of_any hreload
  exact ⟨p, q, hp, hq, bne_iff_ne.mp hne⟩

end Program

end LineBasic
