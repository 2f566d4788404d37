import LineBasic.Proofs.Expr.Shape
import LineBasic.Proofs.Token.Lexing
import LineBasic.Statement.Reader

/-!
# The shape of statements that are read

What the readers of statements can return. `Readable P s` says that the statement `s` is made of
lexemes with the property `P` and has the shape that its reader gives it: expressions fit into the
room there is, lists are not empty, the variable of a loop is numeric, no branch of a condition is
`DATA`. In front of an `ELSE` there is neither a condition that could take it nor a remark that has
swallowed it.

An `ELSE` belongs to the innermost condition that can take it, so a statement that ends in a
condition without `ELSE` is not followed by one, and a remark is followed by nothing.
-/

namespace LineBasic

open Reading

/-- An expression that can be read. -/
def Expr.Readable (P : Lexeme → Prop) (e : Expr) : Prop :=
  e.MadeOf P ∧ e.roomAt .disjunction ≤ Expr.room

/-- A target that can be read. -/
def Target.Readable (P : Lexeme → Prop) (t : Target) : Prop :=
  t.toExpr.Readable P

/-- A constant of `DATA` that can be read: a number with a sign or without, or a text. -/
def Value.Readable (P : Lexeme → Prop) : Value → Prop
  | number x => ∃ y, P (.number y) ∧ (x = y ∨ x = -y)
  | text s => P (.quote s)

/-- A natural number that can be read. -/
def ReadableNatural (P : Lexeme → Prop) (n : Nat) : Prop :=
  ∃ x, P (.number x) ∧ Number.floorMagnitude x = n

namespace Statement

/-- The statement ends in a condition that could take an `ELSE`. -/
def endsOpen : Statement → Bool
  | ifThen _ _ => true
  | ifElse _ _ no => no.endsOpen
  | _ => false

/-- The statement ends in a remark. -/
def endsInRemark : Statement → Bool
  | remark _ => true
  | ifThen _ yes => yes.endsInRemark
  | ifElse _ _ no => no.endsInRemark
  | _ => false

/-- The statement is one of `DATA`. -/
def isData : Statement → Bool
  | data _ => true
  | _ => false

/-- A statement that can be read. -/
def Readable (P : Lexeme → Prop) : Statement → Prop
  | assign target value => target.Readable P ∧ value.Readable P
  | print items => ∀ e ∈ items, e.Readable P
  | pause items => ∀ e ∈ items, e.Readable P
  | input prompt target => (∀ e ∈ prompt, e.Readable P) ∧ target.Readable P
  | wait duration => ∀ e ∈ duration, e.Readable P
  | ifThen condition yes => condition.Readable P ∧ yes.Readable P ∧ yes.isData = false
  | ifElse condition yes no =>
      condition.Readable P ∧ (yes.Readable P ∧ yes.isData = false) ∧
        (no.Readable P ∧ no.isData = false) ∧ yes.endsOpen = false ∧ yes.endsInRemark = false
  | forLoop name start limit step =>
      (P (.name name) ∧ Kind.ofName name = .numeric) ∧ start.Readable P ∧ limit.Readable P ∧
        ∀ e ∈ step, e.Readable P
  | nextLoop name => ∀ n ∈ name, P (.name n)
  | goto line => ReadableNatural P line
  | gosub line => ReadableNatural P line
  | remark text => P (.remark text)
  | data items => items ≠ [] ∧ ∀ v ∈ items, v.Readable P
  | readInto targets => targets ≠ [] ∧ ∀ t ∈ targets, t.Readable P
  | restore line => ∀ n ∈ line, ReadableNatural P n
  | poke address bytes => address.Readable P ∧ bytes ≠ [] ∧ ∀ e ∈ bytes, e.Readable P
  | call address => address.Readable P
  | dim name size length =>
      P (.name name) ∧ ReadableNatural P size ∧
        ∀ n ∈ length, ReadableNatural P n ∧ Kind.ofName name = .textual
  | returnSub => True
  | endProgram => True

/-- What is read from lexemes: a readable statement, of `DATA` or not, and the end of the lexemes,
from which the statement has taken what it can. -/
structure Fits (P : Lexeme → Prop) (isData : Bool) (ts : List Lexeme) (s : Statement)
    (rest : List Lexeme) : Prop where
  readable : s.Readable P
  isData_eq : s.isData = isData
  suffix : rest <:+ ts
  noElse : s.endsOpen = true → ∀ l ∈ rest.head?, l ≠ .keyword .ELSE
  nothing : s.endsInRemark = true → rest = []

theorem Fits.cons {P : Lexeme → Prop} {isData : Bool} {ts rest : List Lexeme} {s : Statement}
    (h : Fits P isData ts s rest) (l : Lexeme) : Fits P isData (l :: ts) s rest :=
  ⟨h.readable, h.isData_eq, h.suffix.trans (List.suffix_cons l ts), h.noElse, h.nothing⟩

end Statement

variable {P : Lexeme → Prop} {ts rest : List Lexeme}

theorem Expr.read_fits (hts : ∀ l ∈ ts, P l) {e : Expr} (h : Expr.read ts = .ok (e, rest)) :
    e.Readable P ∧ rest <:+ ts := by
  obtain ⟨hroom, hmade, hsuf⟩ := (Expr.reads_of_readAt h).fits hts
  exact ⟨⟨hmade, hroom⟩, hsuf⟩

theorem Target.read_fits (hts : ∀ l ∈ ts, P l) {t : Target} (h : Target.read ts = .ok (t, rest)) :
    t.Readable P ∧ rest <:+ ts := by
  unfold Target.read at h
  split at h
  · obtain ⟨hroom, hmade, hsuf⟩ := (Expr.reads_of_readReference h).fits hts
    have hanti : t.toExpr.roomAt .disjunction ≤ t.toExpr.roomAt .term :=
      Expr.roomAt_anti _ (Nat.zero_le _)
    exact ⟨⟨hmade, Nat.le_trans hanti hroom⟩, hsuf⟩
  · cases h

theorem requireName_fits {wanted : Wanted} (hts : ∀ l ∈ ts, P l) {n : Name}
    (h : requireName wanted ts = .ok (n, rest)) : P (.name n) ∧ rest <:+ ts := by
  unfold requireName at h
  split at h
  · cases h
    exact ⟨hts _ List.mem_cons_self, List.suffix_cons _ _⟩
  · cases h

theorem requireNatural_fits {wanted : Wanted} (hts : ∀ l ∈ ts, P l) {n : Nat}
    (h : requireNatural wanted ts = .ok (n, rest)) : ReadableNatural P n ∧ rest <:+ ts := by
  unfold requireNatural at h
  split at h
  · cases h
    exact ⟨⟨_, hts _ List.mem_cons_self, rfl⟩, List.suffix_cons _ _⟩
  · cases h

namespace Statement

theorem readList_fits {separator : Mark} {count : Nat} {es : List Expr} (hts : ∀ l ∈ ts, P l)
    (h : readList separator count ts = .ok (es, rest)) :
    es ≠ [] ∧ (∀ e ∈ es, e.Readable P) ∧ rest <:+ ts :=
  separated_fits (fun _ _ _ hts h => Expr.read_fits hts h) hts h

theorem readItems_fits {es : List Expr} (hts : ∀ l ∈ ts, P l)
    (h : readItems ts = .ok (es, rest)) : (∀ e ∈ es, e.Readable P) ∧ rest <:+ ts := by
  unfold readItems at h
  split at h
  · cases h
    exact ⟨List.forall_mem_nil _, List.suffix_rfl⟩
  · exact (readList_fits hts h).2

theorem readTargets_fits {count : Nat} {targets : List Target} (hts : ∀ l ∈ ts, P l)
    (h : readTargets count ts = .ok (targets, rest)) :
    targets ≠ [] ∧ (∀ t ∈ targets, t.Readable P) ∧ rest <:+ ts :=
  separated_fits (fun _ _ _ hts h => Target.read_fits hts h) hts h

theorem readConstant_fits {v : Value} (hts : ∀ l ∈ ts, P l)
    (h : readConstant ts = .ok (v, rest)) : v.Readable P ∧ rest <:+ ts := by
  unfold readConstant at h
  split at h
  · cases h
    exact ⟨⟨_, hts _ (List.mem_cons_of_mem _ List.mem_cons_self), .inr rfl⟩,
      (List.suffix_cons _ _).trans (List.suffix_cons _ _)⟩
  · cases h
  · cases h
    exact ⟨⟨_, hts _ List.mem_cons_self, .inl rfl⟩, List.suffix_cons _ _⟩
  · cases h
    exact ⟨hts _ List.mem_cons_self, List.suffix_cons _ _⟩
  · cases h

theorem readConstants_fits {count : Nat} {vs : List Value} (hts : ∀ l ∈ ts, P l)
    (h : readConstants count ts = .ok (vs, rest)) :
    vs ≠ [] ∧ (∀ v ∈ vs, v.Readable P) ∧ rest <:+ ts :=
  separated_fits (fun _ _ _ hts h => readConstant_fits hts h) hts h

/-! ## Statements other than conditions -/

/-- A statement that is neither a condition nor a remark fits if it is readable. -/
theorem fits_of_readable {s : Statement} {isData : Bool} (h : s.Readable P) (hsuf : rest <:+ ts)
    (hdata : s.isData = isData) (hopen : s.endsOpen = false) (hremark : s.endsInRemark = false) :
    Fits P isData ts s rest :=
  ⟨h, hdata, hsuf, fun ho => absurd ho (by rw [hopen]; decide),
    fun hr => absurd hr (by rw [hremark]; decide)⟩

theorem readAssign_fits {s : Statement} (hts : ∀ l ∈ ts, P l)
    (h : readAssign ts = .ok (s, rest)) : Fits P false ts s rest := by
  unfold readAssign at h
  split at h
  · cases h
  · rename_i target rest₁ htarget
    obtain ⟨hread, hsuf⟩ := Target.read_fits hts htarget
    split at h
    · cases h
    · rename_i rest₂ heq
      have hsuf₂ := (require_suffix heq).trans hsuf
      split at h
      · cases h
      · rename_i value rest₃ hvalue
        cases h
        obtain ⟨hread', hsuf₃⟩ := Expr.read_fits (forall_of_suffix hts hsuf₂) hvalue
        exact fits_of_readable ⟨hread, hread'⟩ (hsuf₃.trans hsuf₂) rfl rfl rfl

theorem Target.readable_of_target? {e : Expr} {t : Target} (h : e.target? = some t)
    (he : e.Readable P) : t.Readable P := by
  cases e <;> cases h <;> exact he

theorem readInput_fits {s : Statement} (hts : ∀ l ∈ ts, P l)
    (h : readInput ts = .ok (s, rest)) : Fits P false ts s rest := by
  unfold readInput at h
  split at h
  · cases h
  · rename_i first rest₁ hfirst
    obtain ⟨hread, hsuf⟩ := Expr.read_fits hts hfirst
    split at h
    · rename_i rest₂ hsep
      have hsuf₂ := (after?_suffix hsep).trans hsuf
      split at h
      · cases h
      · rename_i target rest₃ htarget
        cases h
        obtain ⟨hread', hsuf₃⟩ := Target.read_fits (forall_of_suffix hts hsuf₂) htarget
        refine fits_of_readable ⟨?_, hread'⟩ (hsuf₃.trans hsuf₂) rfl rfl rfl
        rintro e ⟨⟩
        exact hread
    · split at h
      · rename_i target htarget
        cases h
        exact fits_of_readable ⟨by simp, Target.readable_of_target? htarget hread⟩
          hsuf rfl rfl rfl
      · cases h

theorem readWait_fits {s : Statement} (hts : ∀ l ∈ ts, P l)
    (h : readWait ts = .ok (s, rest)) : Fits P false ts s rest := by
  unfold readWait at h
  split at h
  · cases h
    exact fits_of_readable (fun _ h => nomatch h) List.suffix_rfl rfl rfl rfl
  · split at h
    · cases h
    · rename_i duration rest₁ hduration
      cases h
      obtain ⟨hread, hsuf⟩ := Expr.read_fits hts hduration
      refine fits_of_readable ?_ hsuf rfl rfl rfl
      rintro e ⟨⟩
      exact hread

theorem readStep_fits {step : Option Expr} (hts : ∀ l ∈ ts, P l)
    (h : readStep ts = .ok (step, rest)) : (∀ e ∈ step, e.Readable P) ∧ rest <:+ ts := by
  unfold readStep at h
  split at h
  · cases h
    exact ⟨by simp, List.suffix_rfl⟩
  · rename_i rest₁ hsep
    have hsuf₁ := after?_suffix hsep
    split at h
    · cases h
    · rename_i step rest₂ hstep
      cases h
      obtain ⟨hread, hsuf₂⟩ := Expr.read_fits (forall_of_suffix hts hsuf₁) hstep
      refine ⟨?_, hsuf₂.trans hsuf₁⟩
      rintro e ⟨⟩
      exact hread

theorem readFor_fits {s : Statement} (hts : ∀ l ∈ ts, P l)
    (h : readFor ts = .ok (s, rest)) : Fits P false ts s rest := by
  unfold readFor at h
  split at h
  · cases h
  · rename_i name rest₁ hname
    obtain ⟨hname, hsuf₁⟩ := requireName_fits hts hname
    split at h
    · cases h
    · rename_i hkind
      split at h
      · cases h
      · rename_i rest₂ heq
        have hsuf₂ := (require_suffix heq).trans hsuf₁
        split at h
        · cases h
        · rename_i start rest₃ hstart
          obtain ⟨hread₁, hsuf₃⟩ := Expr.read_fits (forall_of_suffix hts hsuf₂) hstart
          split at h
          · cases h
          · rename_i rest₄ hto
            have hsuf₄ := (require_suffix hto).trans (hsuf₃.trans hsuf₂)
            split at h
            · cases h
            · rename_i limit rest₅ hlimit
              obtain ⟨hread₂, hsuf₅⟩ := Expr.read_fits (forall_of_suffix hts hsuf₄) hlimit
              have hsuf₅ := hsuf₅.trans hsuf₄
              split at h
              · cases h
              · rename_i step rest₆ hstep
                cases h
                obtain ⟨hread₃, hsuf₆⟩ := readStep_fits (forall_of_suffix hts hsuf₅) hstep
                have hnumeric : Kind.ofName name = .numeric := by
                  cases hk : Kind.ofName name with
                  | numeric => rfl
                  | textual => exact absurd hk hkind
                exact fits_of_readable ⟨⟨hname, hnumeric⟩, hread₁, hread₂, hread₃⟩
                  (hsuf₆.trans hsuf₅) rfl rfl rfl

theorem readNext_fits {s : Statement} (hts : ∀ l ∈ ts, P l)
    (h : readNext ts = .ok (s, rest)) : Fits P false ts s rest := by
  unfold readNext at h
  split at h
  · cases h
    exact fits_of_readable (fun _ h => nomatch h) List.suffix_rfl rfl rfl rfl
  · split at h
    · cases h
    · rename_i name rest₁ hname
      cases h
      obtain ⟨hname, hsuf⟩ := requireName_fits hts hname
      refine fits_of_readable ?_ hsuf rfl rfl rfl
      rintro n ⟨⟩
      exact hname

theorem readJump_fits {f : Nat → Statement} {s : Statement} (hts : ∀ l ∈ ts, P l)
    (h : readJump f ts = .ok (s, rest)) :
    ∃ n, s = f n ∧ ReadableNatural P n ∧ rest <:+ ts := by
  unfold readJump at h
  split at h
  · cases h
  · rename_i line rest₁ hline
    cases h
    exact ⟨line, rfl, requireNatural_fits hts hline⟩

theorem readRestore_fits {s : Statement} (hts : ∀ l ∈ ts, P l)
    (h : readRestore ts = .ok (s, rest)) : Fits P false ts s rest := by
  unfold readRestore at h
  split at h
  · cases h
    exact fits_of_readable (fun _ h => nomatch h) List.suffix_rfl rfl rfl rfl
  · obtain ⟨n, rfl, hn, hsuf⟩ := readJump_fits hts h
    refine fits_of_readable ?_ hsuf rfl rfl rfl
    rintro m ⟨⟩
    exact hn

theorem readPoke_fits {s : Statement} (hts : ∀ l ∈ ts, P l)
    (h : readPoke ts = .ok (s, rest)) : Fits P false ts s rest := by
  unfold readPoke at h
  split at h
  · cases h
  · rename_i address rest₁ haddress
    obtain ⟨hread, hsuf⟩ := Expr.read_fits hts haddress
    split at h
    · cases h
    · rename_i rest₂ hsep
      have hsuf₂ := (require_suffix hsep).trans hsuf
      split at h
      · cases h
      · rename_i bytes rest₃ hbytes
        cases h
        obtain ⟨hne, hreads, hsuf₃⟩ := readList_fits (forall_of_suffix hts hsuf₂) hbytes
        exact fits_of_readable ⟨hread, hne, hreads⟩ (hsuf₃.trans hsuf₂) rfl rfl rfl

theorem readLength_fits {name : Name} {length : Option Nat} (hts : ∀ l ∈ ts, P l)
    (h : readLength name ts = .ok (length, rest)) :
    (∀ n ∈ length, ReadableNatural P n ∧ Kind.ofName name = .textual) ∧ rest <:+ ts := by
  unfold readLength at h
  split at h
  · cases h
    exact ⟨by simp, List.suffix_rfl⟩
  · rename_i rest₁ hsep
    have hsuf₁ := after?_suffix hsep
    split at h
    · rename_i hkind
      split at h
      · cases h
      · rename_i length rest₂ hlength
        cases h
        obtain ⟨hread, hsuf₂⟩ := requireNatural_fits (forall_of_suffix hts hsuf₁) hlength
        refine ⟨?_, hsuf₂.trans hsuf₁⟩
        rintro n ⟨⟩
        exact ⟨hread, hkind⟩
    · cases h

theorem readDim_fits {s : Statement} (hts : ∀ l ∈ ts, P l)
    (h : readDim ts = .ok (s, rest)) : Fits P false ts s rest := by
  unfold readDim at h
  split at h
  · cases h
  · rename_i name rest₁ hname
    obtain ⟨hname, hsuf₁⟩ := requireName_fits hts hname
    split at h
    · cases h
    · rename_i rest₂ hleft
      have hsuf₂ := (require_suffix hleft).trans hsuf₁
      split at h
      · cases h
      · rename_i size rest₃ hsize
        obtain ⟨hread, hsuf₃⟩ := requireNatural_fits (forall_of_suffix hts hsuf₂) hsize
        split at h
        · cases h
        · rename_i rest₄ hright
          have hsuf₄ := (require_suffix hright).trans (hsuf₃.trans hsuf₂)
          split at h
          · cases h
          · rename_i length rest₅ hlength
            cases h
            obtain ⟨hread', hsuf₅⟩ := readLength_fits (forall_of_suffix hts hsuf₄) hlength
            exact fits_of_readable ⟨hname, hread, hread'⟩ (hsuf₅.trans hsuf₄) rfl rfl rfl

/-- A remark takes the rest of the line. -/
theorem readRemark_fits {s : Statement} (hts : ∀ l ∈ ts, P l)
    (hord : Lexer.Orderly (.keyword .REM :: ts)) (h : readRemark ts = .ok (s, rest)) :
    Fits P false ts s rest := by
  obtain ⟨text, rfl⟩ := hord ts List.suffix_rfl
  cases h
  exact ⟨hts _ List.mem_cons_self, rfl, List.suffix_cons _ _, fun ho => (nomatch ho),
    fun _ => rfl⟩

theorem readPlain_fits {word : Keyword} {start : List Lexeme} {s : Statement}
    (hts : ∀ l ∈ ts, P l) (hord : Lexer.Orderly (.keyword word :: ts))
    (h : readPlain word ts start = .ok (s, rest)) : Fits P (word == .DATA) ts s rest := by
  unfold readPlain at h
  split at h
  case h_1 => exact readRemark_fits hts hord h
  case h_2 => exact readAssign_fits hts h
  case h_3 =>
    split at h
    · cases h
    · rename_i hitems
      cases h
      obtain ⟨hreads, hsuf⟩ := readItems_fits hts hitems
      exact fits_of_readable hreads hsuf rfl rfl rfl
  case h_4 =>
    split at h
    · cases h
    · rename_i hitems
      cases h
      obtain ⟨hreads, hsuf⟩ := readItems_fits hts hitems
      exact fits_of_readable hreads hsuf rfl rfl rfl
  case h_5 => exact readInput_fits hts h
  case h_6 => exact readWait_fits hts h
  case h_7 => exact readFor_fits hts h
  case h_8 => exact readNext_fits hts h
  case h_9 =>
    obtain ⟨n, rfl, hn, hsuf⟩ := readJump_fits hts h
    exact fits_of_readable hn hsuf rfl rfl rfl
  case h_10 =>
    obtain ⟨n, rfl, hn, hsuf⟩ := readJump_fits hts h
    exact fits_of_readable hn hsuf rfl rfl rfl
  case h_11 =>
    cases h
    exact fits_of_readable trivial List.suffix_rfl rfl rfl rfl
  case h_12 =>
    cases h
    exact fits_of_readable trivial List.suffix_rfl rfl rfl rfl
  case h_13 =>
    split at h
    · cases h
    · rename_i hitems
      cases h
      obtain ⟨hne, hreads, hsuf⟩ := readConstants_fits hts hitems
      exact fits_of_readable ⟨hne, hreads⟩ hsuf rfl rfl rfl
  case h_14 =>
    split at h
    · cases h
    · rename_i htargets
      cases h
      obtain ⟨hne, hreads, hsuf⟩ := readTargets_fits hts htargets
      exact fits_of_readable ⟨hne, hreads⟩ hsuf rfl rfl rfl
  case h_15 => exact readRestore_fits hts h
  case h_16 => exact readPoke_fits hts h
  case h_17 =>
    split at h
    · cases h
    · rename_i haddress
      cases h
      obtain ⟨hread, hsuf⟩ := Expr.read_fits hts haddress
      exact fits_of_readable hread hsuf rfl rfl rfl
  case h_18 => exact readDim_fits hts h
  case h_19 => cases h

/-! ## Conditions and lines -/

theorem ended_eq_ok {r : Reading Statement} {s : Statement} (h : ended r = .ok (s, rest)) :
    r = .ok (s, rest) ∧ atStatementEnd rest = true := by
  unfold ended at h
  split at h
  · cases h
  · rename_i s' rest'
    cases hend : requireEnd rest' with
    | error m =>
        rw [hend] at h
        cases h
    | ok =>
        rw [hend] at h
        cases h
        refine ⟨rfl, ?_⟩
        unfold requireEnd at hend
        split at hend
        · rfl
        · split at hend
          · assumption
          · cases hend

/-- A reader of statements of which it is known what it returns. -/
def BranchFits (P : Lexeme → Prop) (branch : List Lexeme → Reading Statement) : Prop :=
  ∀ ts s rest, (∀ l ∈ ts, P l) → Lexer.Orderly ts → branch ts = .ok (s, rest) →
    Fits P false ts s rest

theorem readBranches_fits {branch : List Lexeme → Reading Statement} {condition : Expr}
    (hbranch : BranchFits P branch) (hts : ∀ l ∈ ts, P l) (hord : Lexer.Orderly ts)
    (hcondition : condition.Readable P) {s : Statement}
    (h : readBranches branch condition ts = .ok (s, rest)) : Fits P false ts s rest := by
  unfold readBranches at h
  split at h
  · cases h
  · rename_i rest₁ hthen
    have hsuf₁ := require_suffix hthen
    split at h
    · cases h
    · rename_i yes rest₂ hyes
      have hfits := hbranch _ _ _ (forall_of_suffix hts hsuf₁) (hord.suffix hsuf₁) hyes
      have hsuf₂ := hfits.suffix.trans hsuf₁
      split at h
      · rename_i helse
        cases h
        refine ⟨⟨hcondition, hfits.readable, hfits.isData_eq⟩, rfl, hsuf₂, fun _ l hl heq => ?_,
          hfits.nothing⟩
        cases hrest : rest with
        | nil =>
            rw [hrest] at hl
            cases hl
        | cons l' rest' =>
            rw [hrest] at hl helse
            cases hl
            rw [heq, after?_cons] at helse
            cases helse
      · rename_i rest₃ helse
        have hsuf₃ := (after?_suffix helse).trans hsuf₂
        split at h
        · cases h
        · rename_i no rest₄ hno
          cases h
          have hfits' := hbranch _ _ _ (forall_of_suffix hts hsuf₃) (hord.suffix hsuf₃) hno
          have hrest₂ := after?_eq_some helse
          have hopen : yes.endsOpen = false := by
            rw [Bool.eq_false_iff]
            intro ho
            exact hfits.noElse ho (.keyword .ELSE) (by rw [hrest₂]; rfl) rfl
          have hremark : yes.endsInRemark = false := by
            rw [Bool.eq_false_iff]
            intro hr
            rw [hfits.nothing hr] at hrest₂
            cases hrest₂
          exact ⟨⟨hcondition, ⟨hfits.readable, hfits.isData_eq⟩,
            ⟨hfits'.readable, hfits'.isData_eq⟩, hopen, hremark⟩, rfl,
            hfits'.suffix.trans hsuf₃, hfits'.noElse, hfits'.nothing⟩

/-- The lexemes of a statement of `DATA` start with that word. -/
def startsWithData : List Lexeme → Bool
  | .keyword word :: _ => word == .DATA
  | _ => false

theorem readBranch_fits {statement : List Lexeme → Reading Statement}
    (h : ∀ ts s rest, (∀ l ∈ ts, P l) → Lexer.Orderly ts → statement ts = .ok (s, rest) →
      Fits P (startsWithData ts) ts s rest) : BranchFits P (readBranch statement) := by
  intro ts s rest hts hord hread
  unfold readBranch at hread
  split at hread
  · cases hread
    exact fits_of_readable ⟨_, hts _ List.mem_cons_self, rfl⟩ (List.suffix_cons _ _) rfl rfl rfl
  · cases hread
  · rename_i hdata
    have hfits := h ts s rest hts hord hread
    have hfalse : startsWithData ts = false := by
      unfold startsWithData
      split
      · rw [beq_eq_false_iff_ne]
        rintro rfl
        exact hdata _ rfl
      · rfl
    exact hfalse ▸ hfits

theorem readWithin_fits (depth : Nat) {ts rest : List Lexeme} {s : Statement}
    (hts : ∀ l ∈ ts, P l) (hord : Lexer.Orderly ts)
    (h : readWithin depth ts = .ok (s, rest)) : Fits P (startsWithData ts) ts s rest := by
  induction depth generalizing ts s rest with
  | zero => cases h
  | succ depth ih =>
      unfold readWithin at h
      split at h
      · rename_i ts₁
        split at h
        · cases h
        · rename_i condition rest₁ hcondition
          obtain ⟨hread, hsuf⟩ := Expr.read_fits (forall_of_cons hts) hcondition
          have hsuf₁ := hsuf.trans (List.suffix_cons (.keyword .IF) ts₁)
          have hbranch : BranchFits P (readBranch (readWithin depth)) :=
            readBranch_fits fun _ _ _ hts hord h => ih hts hord h
          have hfits := readBranches_fits hbranch (forall_of_suffix hts hsuf₁)
            (hord.suffix hsuf₁) hread (ended_eq_ok h).1
          exact ⟨hfits.readable, hfits.isData_eq, hfits.suffix.trans hsuf₁, hfits.noElse,
            hfits.nothing⟩
      · have hfits := readPlain_fits (forall_of_cons hts) hord (ended_eq_ok h).1
        exact hfits.cons _
      · exact readAssign_fits hts (ended_eq_ok h).1
      · cases h

/-- Statements of a line: at least one, each of them readable, and a remark at most at the end. -/
def ReadableLine (P : Lexeme → Prop) : List Statement → Prop
  | [] => False
  | [s] => s.Readable P
  | s :: ss => s.Readable P ∧ s.endsInRemark = false ∧ ReadableLine P ss

theorem ReadableLine.forall {P : Lexeme → Prop} {ss : List Statement}
    (h : ReadableLine P ss) : ∀ s ∈ ss, s.Readable P := by
  induction ss with
  | nil => exact fun s hs => nomatch hs
  | cons s ss ih =>
      cases ss with
      | nil => exact fun t ht => List.mem_singleton.mp ht ▸ h
      | cons s' ss => exact List.forall_mem_cons.mpr ⟨h.1, ih h.2.2⟩

theorem readSequence_readable (count : Nat) {ts : List Lexeme} {ss : List Statement}
    (hts : ∀ l ∈ ts, P l) (hord : Lexer.Orderly ts) (h : readSequence count ts = .ok ss) :
    ReadableLine P ss := by
  induction count generalizing ts ss with
  | zero => cases h
  | succ count ih =>
      rw [readSequence] at h
      split at h
      · cases h
      · rename_i hs
        cases h
        exact (readWithin_fits _ hts hord hs).readable
      · rename_i s l rest hs
        have hfits := readWithin_fits _ hts hord hs
        split at h
        · rename_i hcolon
          split at h
          · cases h
          · rename_i ss hss
            cases h
            have hsuf := (List.suffix_cons l rest).trans hfits.suffix
            have hline := ih (forall_of_suffix hts hsuf) (hord.suffix hsuf) hss
            have hremark : s.endsInRemark = false := by
              rw [Bool.eq_false_iff]
              intro hr
              exact List.cons_ne_nil _ _ (hfits.nothing hr)
            cases ss with
            | nil => exact absurd hline id
            | cons s' ss => exact ⟨hfits.readable, hremark, hline⟩
        · cases h

/-- What is read as a line is a readable line. -/
theorem readLine_readable {ss : List Statement} (hts : ∀ l ∈ ts, P l) (hord : Lexer.Orderly ts)
    (h : readLine ts = .ok ss) : ReadableLine P ss :=
  readSequence_readable _ hts hord h

end Statement

end LineBasic
