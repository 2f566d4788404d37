import LineBasic.Program.Loading
import LineBasic.Proofs.Expr.Spelling
import LineBasic.Proofs.Statement.RoundTrip

/-!
# The listing of a line lexes to its lexemes

A statement that does not end in a remark spells its lexemes. A remark is different: it takes
whatever follows it, so it can only stand at the end of a line, and its text is what is left of the
line without the white space at the ends. `Remarks` says this for any ending in place of the one in
the listing, because a line that is loaded is trimmed first.
-/

namespace LineBasic

open Lexer

/-- Words stand apart. -/
theorem spells_words {a b : String} {l m : List Lexeme} (h : Spells a.toList l)
    (h' : Spells b.toList m) : Spells (a ++ " " ++ b).toList (l ++ m) := by
  rw [String.toList_append, String.toList_append, List.append_assoc]
  exact h.append (opens_blank.append_spells h') (endsWord_blank _)

theorem spells_equation {a b : String} {l m : List Lexeme} (h : Spells a.toList l)
    (h' : Spells b.toList m) (hs : StartsOperand b.toList) :
    Spells (a ++ "=" ++ b).toList (l ++ .operator .equal :: m) := by
  rw [String.toList_append, String.toList_append, List.append_assoc]
  exact h.append (spells_operator .equal hs h') (endsWord_operator .equal _)

theorem spells_natural {n : Nat} (h : ReadableNatural Lexeme.Valid n) :
    Spells (toString n).toList [.natural n] := by
  obtain ⟨hliteral, hfloor⟩ := h.isLiteral
  have hspells := spells_number hliteral
  rwa [hfloor] at hspells

theorem Expr.spells_listing {e : Expr} (h : e.Readable Lexeme.Valid) :
    Spells e.listing.toList e.lexemes ∧ StartsOperand e.listing.toList :=
  Expr.spells_listingAt .disjunction h.1

theorem Target.spells_listing {t : Target} (h : t.Readable Lexeme.Valid) :
    Spells t.listing.toList t.lexemes :=
  (Expr.spells_listing h).1

theorem Value.spells_listing {v : Value} (h : v.Readable Lexeme.Valid) :
    Spells v.listing.toList v.lexemes := by
  cases v with
  | text s => exact (opens_listedText h).spells
  | number x =>
      obtain ⟨y, hy, hx⟩ := h
      have hliteral : Number.IsLiteral y := hy
      have hfinite := ((Number.isWhole_iff y).mp hliteral.1).1
      have hnatural : ReadableNatural Lexeme.Valid (Number.floorMagnitude y) := ⟨y, hy, rfl⟩
      rcases hx with rfl | rfl
      · have hminus : Number.listsMinus x = false := by
          rw [Number.listsMinus, hliteral.2, Bool.false_and]
        rw [Value.listing, listedNumber_of_isLiteral hliteral, Value.lexemes, hminus]
        exact spells_natural hnatural
      · have hfloor := Number.floorMagnitude_neg y hfinite
        have hneg : Number.isNegative (-y) = true := by
          rw [Number.isNegative_neg y hfinite, hliteral.2]
          rfl
        rw [Value.listing, listedNumber, if_pos (Number.isWhole_neg y hliteral.1),
          Number.wholeText, Number.truncated, hneg, if_pos rfl, Value.lexemes, Number.listsMinus,
          hneg, hfloor]
        cases hn : Number.floorMagnitude y with
        | zero =>
            rw [hn] at hnatural
            exact spells_natural hnatural
        | succ n =>
            rw [hn] at hnatural
            have htext : (toString (-((n + 1 : Nat) : Int))).toList =
                Operator.minus.spelling.toList ++ (toString (n + 1)).toList := by
              rw [← String.toList_append]
              rfl
            rw [htext]
            exact spells_operator .minus (startsOperand_toString _) (spells_natural hnatural)

/-- Items joined by a mark. -/
theorem spells_intercalate {α : Type} (m : Mark) {f : α → String} {g : α → List Lexeme}
    {as : List α} (hne : as ≠ []) (h : ∀ a ∈ as, Spells (f a).toList (g a)) :
    Spells (m.spelling.intercalate (as.map f)).toList (Statement.joined m g as) := by
  induction as with
  | nil => exact absurd rfl hne
  | cons a as ih =>
      obtain ⟨ha, has⟩ := List.forall_mem_cons.mp h
      cases as with
      | nil =>
          rw [Statement.joined_singleton, List.map_singleton, String.intercalate_singleton]
          exact ha
      | cons b bs =>
          have htail := ih (List.cons_ne_nil _ _) has
          rw [List.map_cons] at htail
          rw [Statement.joined_cons_cons, List.map_cons, List.map_cons,
            String.intercalate_cons_cons, String.toList_append, String.toList_append,
            List.append_assoc]
          exact ha.append ((opens_mark m).append_spells htail) (endsWord_mark m _)

theorem toList_phrase (word : Keyword) (text : String) :
    (phrase word (some text)).toList = word.spelling.toList ++ [' '] ++ text.toList := by
  rw [phrase, String.toList_append, String.toList_append]
  rfl

theorem spells_phrase {word : Keyword} (hword : word ≠ .REM) {text : String} {ls : List Lexeme}
    (h : Spells text.toList ls) :
    Spells (phrase word (some text)).toList (.keyword word :: ls) := by
  rw [toList_phrase]
  exact (opens_keyword word hword).append_spells h

namespace Statement

theorem spells_listedItems {word : Keyword} (hword : word ≠ .REM) {items : List Expr}
    (h : ∀ e ∈ items, e.Readable Lexeme.Valid) :
    Spells (phrase word (listedItems items)).toList
      (.keyword word :: joined .semicolon Expr.lexemes items) := by
  cases items with
  | nil => exact spells_keyword word hword
  | cons e es =>
      refine spells_phrase hword ?_
      exact spells_intercalate .semicolon (List.cons_ne_nil _ _)
        fun e he => (Expr.spells_listing (h e he)).1

theorem spells_forLoop {name : Name} {start limit : Expr} {step : Option Expr}
    (h : (forLoop name start limit step).Readable Lexeme.Valid) :
    Spells (forLoop name start limit step).listing.toList
      (forLoop name start limit step).lexemes := by
  obtain ⟨⟨hname, -⟩, hstart, hlimit, hstep⟩ := h
  have hname : IsName name := hname
  obtain ⟨hspells, hoperand⟩ := Expr.spells_listing hstart
  have hhead := spells_words (spells_equation (spells_name hname) hspells hoperand)
    (spells_phrase (show Keyword.TO ≠ .REM by decide) (Expr.spells_listing hlimit).1)
  rw [listing, lexemes]
  refine spells_phrase (by decide) ?_
  cases step with
  | none =>
      rw [Option.map_none, Option.getD_none, String.append_empty, Option.elim_none,
        List.append_nil]
      simpa using hhead
  | some e =>
      have hphrase := spells_phrase (show Keyword.STEP ≠ .REM by decide)
        (Expr.spells_listing (hstep e rfl)).1
      rw [Option.map_some, Option.getD_some, ← String.append_assoc, Option.elim_some]
      simpa using spells_words hhead hphrase

theorem spells_dim {name : Name} {size : Nat} {length : Option Nat}
    (h : (dim name size length).Readable Lexeme.Valid) :
    Spells (dim name size length).listing.toList
      (dim name size length).lexemes := by
  obtain ⟨hname, hsize, hlength⟩ := h
  have hname : IsName name := hname
  have hopen := (opens_mark .leftParen).append_spells (spells_natural hsize)
  have hclose := hopen.append_opens (opens_mark .rightParen) (endsWord_mark .rightParen [])
    (List.cons_ne_nil _ _)
  have hbounds := (spells_name hname).append_opens hclose (endsWord_mark .leftParen _)
    (List.cons_ne_nil _ _)
  rw [listing, lexemes]
  refine spells_phrase (by decide) ?_
  cases length with
  | none =>
      convert hbounds.spells using 1
      · simp [String.toList_append, toString]
        rfl
      · rfl
  | some n =>
      have hn := spells_natural (hlength n rfl).1
      have htimes := spells_operator .times (startsOperand_toString n) hn
      convert hbounds.append_spells htimes using 1
      · simp [String.toList_append, toString]
        rfl
      · rfl

/-- The listing of a condition up to the branch that is taken if it holds. -/
def listedCondition (condition : Expr) : List Char :=
  Keyword.IF.spelling.toList ++ [' '] ++ condition.listing.toList ++
    ([' '] ++ (Keyword.THEN.spelling.toList ++ [' ']))

/-- The listing between the branches of a condition. -/
def listedElse : List Char :=
  [' '] ++ (Keyword.ELSE.spelling.toList ++ [' '])

theorem opens_listedCondition {condition : Expr} (h : condition.Readable Lexeme.Valid) :
    Opens (listedCondition condition)
      (.keyword .IF :: (condition.lexemes ++ [.keyword .THEN])) := by
  have hif := (opens_keyword .IF (by decide)).append_spells (Expr.spells_listing h).1
  have hthen := opens_blank.append (opens_keyword .THEN (by decide))
  exact hif.append_opens hthen (endsWord_blank _) (List.cons_ne_nil _ _)

theorem opens_listedElse : Opens listedElse [.keyword .ELSE] :=
  opens_blank.append (opens_keyword .ELSE (by decide))

theorem listing_ifThen (condition : Expr) (yes : Statement) :
    (ifThen condition yes).listing.toList =
      listedCondition condition ++ yes.listing.toList := by
  simp only [listing, toList_phrase, String.toList_append, List.append_assoc, listedCondition]
  rfl

theorem listing_ifElse (condition : Expr) (yes no : Statement) :
    (ifElse condition yes no).listing.toList =
      listedCondition condition ++ (yes.listing.toList ++ listedElse) ++ no.listing.toList := by
  simp only [listing, toList_phrase, String.toList_append, List.append_assoc, listedCondition,
    listedElse]
  rfl

theorem lexemes_ifThen (condition : Expr) (yes : Statement) :
    (ifThen condition yes).lexemes =
      .keyword .IF :: (condition.lexemes ++ [.keyword .THEN]) ++ yes.lexemes := by
  rw [lexemes, List.cons_append, List.append_assoc, List.singleton_append]

theorem lexemes_ifElse (condition : Expr) (yes no : Statement) :
    (ifElse condition yes no).lexemes =
      .keyword .IF :: (condition.lexemes ++ [.keyword .THEN]) ++
        (yes.lexemes ++ [.keyword .ELSE]) ++ no.lexemes := by
  simp only [lexemes, List.cons_append, List.append_assoc, List.nil_append]

/-- The listing of a condition up to the branch that is taken if it does not hold. -/
theorem opens_ifElse {condition : Expr} {yes : Statement} (h : condition.Readable Lexeme.Valid)
    (hyes : Spells yes.listing.toList yes.lexemes) :
    Opens (listedCondition condition ++ (yes.listing.toList ++ listedElse))
      (.keyword .IF :: (condition.lexemes ++ [.keyword .THEN]) ++
        (yes.lexemes ++ [.keyword .ELSE])) :=
  (opens_listedCondition h).append
    (hyes.append_opens opens_listedElse (endsWord_blank _) (List.cons_ne_nil _ _))

/-- A statement that does not end in a remark spells its lexemes. -/
theorem spells_listing {s : Statement} (h : s.Readable Lexeme.Valid)
    (hr : s.endsInRemark = false) : Spells s.listing.toList s.lexemes := by
  induction s with
  | assign target value =>
      obtain ⟨hspells, hoperand⟩ := Expr.spells_listing h.2
      exact spells_equation (Target.spells_listing h.1) hspells hoperand
  | print items => exact spells_listedItems (by decide) h
  | pause items => exact spells_listedItems (by decide) h
  | input prompt target =>
      obtain ⟨hprompt, htarget⟩ := h
      have hspells := Target.spells_listing htarget
      cases prompt with
      | none => exact spells_phrase (by decide) hspells
      | some prompt =>
          refine spells_phrase (by decide) ?_
          rw [String.toList_append, String.toList_append, List.append_assoc]
          exact (Expr.spells_listing (hprompt prompt rfl)).1.append
            ((opens_mark .semicolon).append_spells hspells) (endsWord_mark .semicolon _)
  | wait duration =>
      cases duration with
      | none => exact spells_keyword .WAIT (by decide)
      | some e => exact spells_phrase (by decide) (Expr.spells_listing (h e rfl)).1
  | ifThen condition yes ih =>
      obtain ⟨hcondition, hyes, -⟩ := h
      rw [listing_ifThen, lexemes_ifThen]
      exact (opens_listedCondition hcondition).append_spells (ih hyes hr)
  | ifElse condition yes no ihy ihn =>
      obtain ⟨hcondition, ⟨hyes, -⟩, ⟨hno, -⟩, -, hremark⟩ := h
      rw [listing_ifElse, lexemes_ifElse]
      exact (opens_ifElse hcondition (ihy hyes hremark)).append_spells (ihn hno hr)
  | forLoop name start limit step => exact spells_forLoop h
  | nextLoop name =>
      cases name with
      | none => exact spells_keyword .NEXT (by decide)
      | some n => exact spells_phrase (by decide) (spells_name (h n rfl))
  | goto line => exact spells_phrase (by decide) (spells_natural h)
  | gosub line => exact spells_phrase (by decide) (spells_natural h)
  | returnSub => exact spells_keyword .RETURN (by decide)
  | endProgram => exact spells_keyword .END (by decide)
  | remark text => cases hr
  | data items =>
      exact spells_phrase (by decide)
        (spells_intercalate .comma h.1 fun v hv => Value.spells_listing (h.2 v hv))
  | readInto targets =>
      exact spells_phrase (by decide)
        (spells_intercalate .comma h.1 fun t ht => Target.spells_listing (h.2 t ht))
  | restore line =>
      cases line with
      | none => exact spells_keyword .RESTORE (by decide)
      | some n => exact spells_phrase (by decide) (spells_natural (h n rfl))
  | poke address bytes =>
      obtain ⟨haddress, hne, hbytes⟩ := h
      have hall : ∀ e ∈ address :: bytes, Spells e.listing.toList e.lexemes := fun e he =>
        (Expr.spells_listing (List.forall_mem_cons.mpr ⟨haddress, hbytes⟩ e he)).1
      have hlist := spells_intercalate .comma (List.cons_ne_nil address bytes) hall
      obtain ⟨b, bs, rfl⟩ := List.exists_cons_of_ne_nil hne
      rw [joined_cons_cons] at hlist
      exact spells_phrase (by decide) hlist
  | call address => exact spells_phrase (by decide) (Expr.spells_listing h).1
  | dim name size length => exact spells_dim h
/-! ## Remarks at the end -/

/-- The statement with another text in the remark that ends it. -/
def withRemark (text : String) : Statement → Statement
  | remark _ => remark text
  | ifThen condition yes => ifThen condition (yes.withRemark text)
  | ifElse condition yes no => ifElse condition yes (no.withRemark text)
  | s => s

/-- The text of the remark that ends the statement. -/
def finalRemark : Statement → String
  | remark text => text
  | ifThen _ yes => yes.finalRemark
  | ifElse _ _ no => no.finalRemark
  | _ => ""

/-- The text of a remark behind its word. -/
def listedRemark (text : String) : List Char :=
  if text = "" then [] else ' ' :: text.toList

theorem withRemark_finalRemark (s : Statement) : s.withRemark s.finalRemark = s := by
  induction s with
  | ifThen condition yes ih => rw [withRemark, finalRemark, ih]
  | ifElse condition yes no _ ih => rw [withRemark, finalRemark, ih]
  | _ => rfl

theorem mem_lexemes_of_endsInRemark {s : Statement} (h : s.endsInRemark = true) :
    .remark s.finalRemark ∈ s.lexemes := by
  induction s with
  | ifThen condition yes ih =>
      rw [lexemes_ifThen]
      exact List.mem_append_right _ (ih h)
  | ifElse condition yes no _ ih =>
      rw [lexemes_ifElse]
      exact List.mem_append_right _ (ih h)
  | remark text => exact List.mem_cons_of_mem _ List.mem_cons_self
  | _ => cases h

theorem withRemark_of_not_endsInRemark (text : String) {s : Statement}
    (h : s.endsInRemark = false) : s.withRemark text = s := by
  induction s with
  | ifThen condition yes ih => rw [withRemark, ih h]
  | ifElse condition yes no _ ih => rw [withRemark, ih h]
  | remark => cases h
  | _ => rfl

/-- A remark that is read has no white space at its ends. -/
theorem strip_finalRemark {s : Statement} (h : s.Readable Lexeme.Valid) :
    Text.strip s.finalRemark.toList = s.finalRemark.toList := by
  induction s with
  | ifThen condition yes ih => exact ih h.2.1
  | ifElse condition yes no _ ih => exact ih h.2.2.1.1
  | remark text => exact h
  | _ => rfl

theorem isData_withRemark (text : String) (s : Statement) :
    (s.withRemark text).isData = s.isData := by
  cases s <;> rfl

theorem readable_withRemark {s : Statement} {text : String} (h : s.Readable Lexeme.Valid)
    (htext : Text.strip text.toList = text.toList) :
    (s.withRemark text).Readable Lexeme.Valid := by
  induction s with
  | ifThen condition yes ih =>
      obtain ⟨hcondition, hyes, hdata⟩ := h
      exact ⟨hcondition, ih hyes, (isData_withRemark text yes).trans hdata⟩
  | ifElse condition yes no _ ih =>
      obtain ⟨hcondition, hyes, ⟨hno, hdata⟩, hends⟩ := h
      exact ⟨hcondition, hyes, ⟨ih hno, (isData_withRemark text no).trans hdata⟩, hends⟩
  | remark => exact htext
  | _ => exact h

theorem endsWord_listedRemark (text : String) : EndsWord (listedRemark text) := by
  unfold listedRemark
  split
  · exact endsWord_nil
  · exact endsWord_blank _

/-- The blank behind `REM` does not belong to the remark. -/
theorem strip_listedRemark (text : String) :
    Text.strip (listedRemark text) = Text.strip text.toList := by
  unfold listedRemark
  split
  case isTrue h => rw [h]; rfl
  case isFalse => rfl

/-- The text of the remark stands at the end of the listing. -/
theorem listing_withRemark {s : Statement} (text : String) (h : s.endsInRemark = true) :
    (s.withRemark text).listing.toList =
      (s.withRemark "").listing.toList ++ listedRemark text := by
  induction s with
  | ifThen condition yes ih =>
      rw [withRemark, withRemark, listing_ifThen, listing_ifThen, ih h, List.append_assoc]
  | ifElse condition yes no _ ih =>
      rw [withRemark, withRemark, listing_ifElse, listing_ifElse, ih h, ← List.append_assoc]
  | remark =>
      rw [withRemark, withRemark, listing, listedRemark]
      split
      · exact (List.append_nil _).symm
      · exact toList_phrase .REM text
  | _ => cases h

/-- A statement that ends in a remark takes what follows for the text of the remark. -/
theorem opensRemark_listing {s : Statement} (h : s.Readable Lexeme.Valid)
    (hr : s.endsInRemark = true) :
    OpensRemark (s.withRemark "").listing.toList fun text => (s.withRemark text).lexemes := by
  induction s with
  | ifThen condition yes ih =>
      obtain ⟨hcondition, hyes, -⟩ := h
      simp only [withRemark, listing_ifThen, lexemes_ifThen]
      exact (opens_listedCondition hcondition).append_remark (ih hyes hr)
  | ifElse condition yes no _ ih =>
      obtain ⟨hcondition, ⟨hyes, -⟩, ⟨hno, -⟩, -, hremark⟩ := h
      simp only [withRemark, listing_ifElse, lexemes_ifElse]
      exact (opens_ifElse hcondition (spells_listing hyes hremark)).append_remark (ih hno hr)
  | remark text => exact opensRemark_rem
  | _ => cases hr

/-! ## Lines -/

/-- The listing of the statements of a line. -/
def lineListing (ss : List Statement) : String :=
  ":".intercalate (ss.map listing)

/-- The statements of a line with another text in the remark that ends it. -/
def remarked (text : String) : List Statement → List Statement
  | [] => []
  | [s] => [s.withRemark text]
  | s :: ss => s :: remarked text ss

theorem remarked_cons (text : String) (s : Statement) {ss : List Statement} (hne : ss ≠ []) :
    remarked text (s :: ss) = s :: remarked text ss := by
  cases ss with
  | nil => exact absurd rfl hne
  | cons s' ss => rfl

theorem remarked_ne_nil (text : String) {ss : List Statement} (hne : ss ≠ []) :
    remarked text ss ≠ [] := by
  cases ss with
  | nil => exact absurd rfl hne
  | cons s ss => cases ss <;> exact List.cons_ne_nil _ _

theorem lineListing_cons (s : Statement) {ss : List Statement} (hne : ss ≠ []) :
    (lineListing (s :: ss)).toList =
      s.listing.toList ++ Mark.colon.spelling.toList ++ (lineListing ss).toList := by
  obtain ⟨s', ss, rfl⟩ := List.exists_cons_of_ne_nil hne
  rw [lineListing, lineListing, List.map_cons, List.map_cons, String.intercalate_cons_cons,
    String.toList_append, String.toList_append]
  rfl

theorem lineLexemes_cons (s : Statement) {ss : List Statement} (hne : ss ≠ []) :
    lineLexemes (s :: ss) = s.lexemes ++ [.mark .colon] ++ lineLexemes ss := by
  obtain ⟨s', ss, rfl⟩ := List.exists_cons_of_ne_nil hne
  rw [lineLexemes, joined_cons_cons, List.append_assoc]
  rfl

/-- The listing of a line is a text that takes any remark, with a remark of the line behind it. -/
structure EndsInRemark (ss : List Statement) (front : List Char) (text : String) : Prop where
  listing_remarked : ∀ text', (lineListing (remarked text' ss)).toList = front ++ listedRemark text'
  opens : OpensRemark front fun text => lineLexemes (remarked text ss)
  remarked_eq : remarked text ss = ss
  mem : .remark text ∈ lineLexemes ss
  strip_eq : Text.strip text.toList = text.toList

theorem EndsInRemark.listing_eq {ss : List Statement} {front : List Char} {text : String}
    (h : EndsInRemark ss front text) : (lineListing ss).toList = front ++ listedRemark text := by
  rw [← h.listing_remarked, h.remarked_eq]

/-- The listing of a line either spells the lexemes of its statements or ends in a remark. -/
theorem lineListing_cases {ss : List Statement} (h : ReadableLine Lexeme.Valid ss) :
    ((∀ text, remarked text ss = ss) ∧ Spells (lineListing ss).toList (lineLexemes ss)) ∨
      ∃ front text, EndsInRemark ss front text := by
  induction ss with
  | nil => exact absurd h id
  | cons s ss ih =>
      cases ss with
      | nil =>
          have h : s.Readable Lexeme.Valid := h
          have hlexemes : lineLexemes [s] = s.lexemes := joined_singleton .colon lexemes s
          have hlisting : lineListing [s] = s.listing := String.intercalate_singleton
          cases hr : s.endsInRemark with
          | false =>
              refine .inl ⟨fun text => ?_, ?_⟩
              · rw [remarked, withRemark_of_not_endsInRemark text hr]
              · rw [hlexemes, hlisting]
                exact spells_listing h hr
          | true =>
              refine .inr ⟨(s.withRemark "").listing.toList, s.finalRemark, fun text' => ?_, ?_, ?_,
                ?_, strip_finalRemark h⟩
              · rw [remarked, lineListing, List.map_singleton, String.intercalate_singleton]
                exact listing_withRemark text' hr
              · convert opensRemark_listing h hr using 2 with text
                exact joined_singleton .colon lexemes _
              · rw [remarked, withRemark_finalRemark]
              · rw [hlexemes]
                exact mem_lexemes_of_endsInRemark hr
      | cons s' ss =>
          obtain ⟨hs, hremark, hss⟩ := h
          have hne : s' :: ss ≠ [] := List.cons_ne_nil _ _
          have hopen : Opens (s.listing.toList ++ Mark.colon.spelling.toList)
              (s.lexemes ++ [.mark .colon]) :=
            (spells_listing hs hremark).append_opens (opens_mark .colon)
              (endsWord_mark .colon []) (List.cons_ne_nil _ _)
          rcases ih hss with ⟨hsame, hspells⟩ | ⟨front, text, hend⟩
          · refine .inl ⟨fun text => ?_, ?_⟩
            · rw [remarked_cons text s hne, hsame text]
            · rw [lineListing_cons s hne, lineLexemes_cons s hne]
              exact hopen.append_spells hspells
          · refine .inr ⟨s.listing.toList ++ Mark.colon.spelling.toList ++ front, text,
              fun text' => ?_, ?_, ?_, ?_, hend.strip_eq⟩
            · rw [remarked_cons text' s hne, lineListing_cons s (remarked_ne_nil text' hne),
                hend.listing_remarked, List.append_assoc _ front]
            · convert hopen.append_remark hend.opens using 2 with text
              rw [remarked_cons text s hne, lineLexemes_cons s (remarked_ne_nil text hne)]
            · rw [remarked_cons text s hne, hend.remarked_eq]
            · rw [lineLexemes_cons s hne]
              exact List.mem_append_right _ hend.mem

theorem readable_remarked {ss : List Statement} {text : String}
    (h : ReadableLine Lexeme.Valid ss) (htext : Text.strip text.toList = text.toList) :
    ReadableLine Lexeme.Valid (remarked text ss) := by
  induction ss with
  | nil => exact h
  | cons s ss ih =>
      cases ss with
      | nil => exact readable_withRemark h htext
      | cons s' ss =>
          obtain ⟨hs, hremark, hss⟩ := h
          rw [remarked_cons text s (List.cons_ne_nil _ _)]
          obtain ⟨t, ts, hts⟩ :=
            List.exists_cons_of_ne_nil (remarked_ne_nil text (List.cons_ne_nil s' ss))
          rw [hts]
          exact ⟨hs, hremark, hts ▸ ih hss⟩

/-- The listing of a line lexes to the lexemes of its statements. -/
theorem lexes_lineListing {ss : List Statement} (h : ReadableLine Lexeme.Valid ss) :
    Lexes (lineListing ss).toList (lineLexemes ss) := by
  rcases lineListing_cases h with ⟨-, hspells⟩ | ⟨front, text, hend⟩
  · exact hspells.lexes_self
  · have hlexes := hend.opens.lexes _ (endsWord_listedRemark text)
    rwa [strip_listedRemark, hend.strip_eq, String.ofList_toList, hend.remarked_eq,
      ← hend.listing_eq] at hlexes

/-- The listing of a line has plain characters and those of the texts in it. -/
theorem mem_lineListing {ss : List Statement} (h : ReadableLine Lexeme.Valid ss) :
    ∀ c ∈ (lineListing ss).toList, IsPlain c ∨ ∃ l ∈ lineLexemes ss, c ∈ l.content := by
  rcases lineListing_cases h with ⟨-, hspells⟩ | ⟨front, text, hend⟩
  · exact hspells.chars
  · intro c hc
    rw [hend.listing_eq, List.mem_append] at hc
    rcases hc with hc | hc
    · have hchars := (hend.opens.shows text).chars c hc
      rwa [hend.remarked_eq] at hchars
    · unfold listedRemark at hc
      split at hc
      · cases hc
      · rcases List.mem_cons.mp hc with rfl | hc
        · exact .inl (by decide)
        · exact .inr ⟨_, hend.mem, hc⟩

/-- Trimming the end of a remark changes the remark, unless there is nothing to be trimmed. -/
theorem listedRemark_dropEnd_iff {p : Char → Bool} (hp : p ' ' = false) {text : String}
    (htext : Text.strip text.toList = text.toList) :
    listedRemark (String.ofList (Text.strip (Text.dropEnd p (listedRemark text)))) =
        listedRemark text ↔
      Text.dropEnd p (listedRemark text) = listedRemark text := by
  constructor
  · intro h
    rw [listedRemark.eq_def text] at h ⊢
    split
    case isTrue => rfl
    case isFalse hne =>
      rw [if_neg hne] at h
      have hhead : (Text.dropEnd p (' ' :: text.toList)).head? = some ' ' :=
        Text.head?_dropEnd fun c hc => by cases hc; exact hp
      obtain ⟨rest, hrest⟩ := List.head?_eq_some_iff.mp hhead
      have hstrip : Text.strip (' ' :: rest) = Text.strip rest := rfl
      rw [hrest, hstrip, listedRemark] at h
      -- The remark would be longer than the text that it is read from.
      have hlength : rest.length = text.toList.length := by
        have hle := (Text.isPrefix_dropEnd p (' ' :: text.toList)).length_le
        rw [hrest, List.length_cons, List.length_cons] at hle
        split at h
        · cases h
        · have hsame := congrArg List.length (List.cons.inj h).2
          rw [String.toList_ofList] at hsame
          have hshort := Text.length_strip_le rest
          omega
      refine (Text.isPrefix_dropEnd p _).eq_of_length ?_
      rw [hrest, List.length_cons, List.length_cons, hlength]
  · intro h
    rw [h, strip_listedRemark, htext, String.ofList_toList]

/-- Trimming the listing of a line shortens the remark at its end, if it does anything. -/
theorem lexes_dropEnd {ss : List Statement} (h : ReadableLine Lexeme.Valid ss) {p : Char → Bool}
    (hp : ∀ c, IsPlain c → p c = false) :
    ∃ text, Text.strip text.toList = text.toList ∧
      Lexes (Text.dropEnd p (lineListing ss).toList) (lineLexemes (remarked text ss)) ∧
      (lineListing (remarked text ss) = lineListing ss ↔
        Text.dropEnd p (lineListing ss).toList = (lineListing ss).toList) := by
  rcases lineListing_cases h with ⟨hsame, hspells⟩ | ⟨front, text, hend⟩
  · obtain ⟨c, hc, hplain⟩ := hspells.last
    have hdrop := Text.dropEnd_append ⟨c, hc, hp c hplain⟩ []
    rw [List.append_nil, Text.dropEnd_nil, List.append_nil] at hdrop
    refine ⟨"", rfl, ?_, ?_⟩
    · rw [hdrop, hsame]
      exact hspells.lexes_self
    · exact ⟨fun _ => hdrop, fun _ => by rw [hsame]⟩
  · obtain ⟨c, hc, hplain⟩ := (hend.opens.shows text).last
    have hdrop := Text.dropEnd_append ⟨c, hc, hp c hplain⟩ (listedRemark text)
    have htail : EndsWord (Text.dropEnd p (listedRemark text)) := by
      have hhead : ∀ d ∈ (listedRemark text).head?, p d = false := by
        intro d hd
        unfold listedRemark at hd
        split at hd <;> cases hd
        exact hp ' ' (by decide)
      rw [EndsWord, Text.head?_dropEnd hhead]
      exact endsWord_listedRemark text
    refine ⟨String.ofList (Text.strip (Text.dropEnd p (listedRemark text))), ?_, ?_, ?_⟩
    · rw [String.toList_ofList, Text.strip_strip]
    · rw [hend.listing_eq, hdrop]
      exact hend.opens.lexes _ htail
    · rw [← String.toList_inj, hend.listing_remarked, hend.listing_eq, hdrop,
        List.append_cancel_left_eq, List.append_cancel_left_eq]
      exact listedRemark_dropEnd_iff (hp ' ' (by decide)) hend.strip_eq

end Statement

end LineBasic
