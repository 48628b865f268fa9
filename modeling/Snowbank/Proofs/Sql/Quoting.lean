import Snowbank.Sql.Basic

/-!
# Quotations in SQL

Whoever reads SQL text goes through it from left to right. A single quotation
mark opens a literal text and a double one opens a name, each is closed by the
same mark, and a mark that is written twice inside is one of its characters.

What a name or a literal text holds does not matter, since it is quoted. Closed
pieces put together are closed, because a mark that is written twice takes the
reader out and in again: reading is the same as changing sides at every mark,
character by character.

## Main definitions

* `Lexical`: Where a reader of SQL text stands.
* `IsClosed`: All words are closed, and no SQL is taken as it is.

## Theorems

* `scan_eq_foldl`: Reading is changing sides at every mark.
* `IsClosed.scan_render`: A closed piece ends outside all quotations.
-/

namespace Snowbank

open List

/-- A quotation mark of SQL. -/
inductive Quote where
  /-- Around literal texts. -/
  | single
  /-- Around names. -/
  | double
  deriving DecidableEq

namespace Quote

/-- The mark as a character. -/
def char : Quote → Char
  | single => '\''
  | double => '"'

/-- The mark that a character is. -/
def ofChar? (c : Char) : Option Quote :=
  if c = '\'' then some single else if c = '"' then some double else none

theorem ofChar?_char (q : Quote) : ofChar? q.char = some q := by
  cases q <;> rfl

end Quote

/-- Where a reader of SQL text stands. -/
inductive Lexical where
  | outside
  | inside (quote : Quote)
  deriving DecidableEq

namespace Lexical

/-- Where the reader of a text ends. Inside a quotation, a mark that is written
    twice does not close it. -/
def scan : Lexical → List Char → Lexical
  | state, [] => state
  | outside, c :: rest =>
    match Quote.ofChar? c with
    | some q => scan (inside q) rest
    | none => scan outside rest
  | inside q, [c] => if c = q.char then outside else inside q
  | inside q, c :: d :: rest =>
    if c = q.char then
      if d = q.char then scan (inside q) rest else scan outside (d :: rest)
    else scan (inside q) (d :: rest)

/-- Every mark changes sides. -/
def next (state : Lexical) (c : Char) : Lexical := match state with
  | outside =>
    match Quote.ofChar? c with
    | some q => inside q
    | none => outside
  | inside q => if c = q.char then outside else inside q

/-- A mark that is written twice takes the reader out of the quotation and into it again. -/
theorem next_twice (q : Quote) : next (next (inside q) q.char) q.char = inside q := by
  rw [next, if_pos rfl, next, Quote.ofChar?_char]

theorem scan_eq_foldl (state : Lexical) (cs : List Char) : scan state cs = cs.foldl next state := by
  fun_induction scan state cs with
  | case1 => rfl
  | case2 c rest q hq ih | case3 c rest hq ih => rw [ih, foldl_cons, next, hq]
  | case4 q => rw [foldl_cons, foldl_nil, next, if_pos rfl]
  | case5 q c hc => rw [foldl_cons, foldl_nil, next, if_neg hc]
  | case6 q rest ih => rw [ih, foldl_cons, foldl_cons, next_twice]
  | case7 q d rest hd ih =>
    have hstep : next (inside q) q.char = outside := if_pos rfl
    rw [ih, foldl_cons, foldl_cons, foldl_cons, hstep]
  | case8 q c d rest hc ih =>
    have hstep : next (inside q) c = inside q := if_neg hc
    rw [ih, foldl_cons, foldl_cons, foldl_cons, hstep]

theorem scan_append (state : Lexical) (as bs : List Char) :
    scan state (as ++ bs) = scan (scan state as) bs := by
  rw [scan_eq_foldl, scan_eq_foldl, scan_eq_foldl, foldl_append]

/-- Nothing but marks changes where the reader stands. -/
theorem scan_outside_of_plain {cs : List Char} (h : ∀ c ∈ cs, Quote.ofChar? c = none) :
    scan outside cs = outside := by
  induction cs with
  | nil => rfl
  | cons c rest ih =>
    rw [forall_mem_cons] at h
    rw [scan_eq_foldl, foldl_cons, next, h.1, ← scan_eq_foldl]
    exact ih h.2

theorem scan_doubled (q : Quote) (cs : List Char) :
    scan (inside q) (Sql.doubled q.char cs) = inside q := by
  induction cs with
  | nil => rfl
  | cons c rest ih =>
    rw [Sql.doubled]
    by_cases hc : c = q.char
    · rw [if_pos (beq_iff_eq.2 hc), scan_eq_foldl, foldl_cons, foldl_cons, next_twice,
        ← scan_eq_foldl]
      exact ih
    · rw [if_neg (fun h => hc (beq_iff_eq.1 h)), scan_eq_foldl, foldl_cons, next, if_neg hc,
        ← scan_eq_foldl]
      exact ih

theorem scan_quoted (q : Quote) (text : String) :
    scan outside (Sql.quotedWith q.char text).toList = outside := by
  have hopen : scan outside [q.char] = inside q := by
    rw [scan_eq_foldl, foldl_cons, foldl_nil, next, Quote.ofChar?_char]
  have hclose : scan (inside q) [q.char] = outside := by
    rw [scan_eq_foldl, foldl_cons, foldl_nil, next, if_pos rfl]
  have hparts : q.char :: Sql.doubled q.char text.toList ++ [q.char] =
      [q.char] ++ Sql.doubled q.char text.toList ++ [q.char] := rfl
  rw [Sql.quotedWith, String.toList_ofList, hparts, scan_append, scan_append, hopen, scan_doubled,
    hclose]

end Lexical

namespace SqlToken

/-- The token ends outside of all quotations, whatever it holds. -/
def IsClosed : SqlToken → Prop
  | word w => Lexical.scan .outside w.toList = .outside
  | name _ | text _ => True
  | script _ => False

theorem IsClosed.scan_renderToken {t : SqlToken} (h : t.IsClosed) :
    Lexical.scan .outside (Sql.renderToken t).toList = .outside := by
  cases t with
  | word text => exact h
  | name text => exact Lexical.scan_quoted .double text
  | text text => exact Lexical.scan_quoted .single text
  | script sql => cases h

end SqlToken

namespace Sql

/-- All words are closed, and no SQL is taken as it is. -/
def IsClosed (sql : Sql) : Prop := ∀ t ∈ sql.tokens, t.IsClosed

theorem IsClosed.scan_render {sql : Sql} (h : sql.IsClosed) :
    Lexical.scan .outside sql.render.toList = .outside := by
  rw [render, String.toList_join]
  obtain ⟨tokens⟩ := sql
  induction tokens with
  | nil => rfl
  | cons t rest ih =>
    rw [IsClosed, forall_mem_cons] at h
    rw [map_cons, flatMap_cons, Lexical.scan_append, h.1.scan_renderToken]
    exact ih h.2

section

variable {a b : Sql}

@[simp] theorem isClosed_append : (a ++ b).IsClosed ↔ a.IsClosed ∧ b.IsClosed := forall_mem_append

theorem IsClosed.append (ha : a.IsClosed) (hb : b.IsClosed) : (a ++ b).IsClosed :=
  isClosed_append.2 ⟨ha, hb⟩

@[simp] theorem isClosed_empty : empty.IsClosed := forall_mem_nil _

@[simp] theorem isClosed_name (text : String) : (name text).IsClosed :=
  forall_mem_singleton.2 trivial

@[simp] theorem isClosed_text (s : String) : (text s).IsClosed := forall_mem_singleton.2 trivial

@[simp low] theorem isClosed_word_iff (w : String) :
    (word w).IsClosed ↔ Lexical.scan .outside w.toList = .outside :=
  forall_mem_singleton

/-- A word that is given by its characters. A literal is one. -/
theorem IsClosed.word {cs : List Char} (h : Lexical.scan .outside cs = .outside) :
    (word (String.ofList cs)).IsClosed := by
  rw [isClosed_word_iff, String.toList_ofList, h]

@[simp] theorem isClosed_column (h : a.IsClosed) (column : String) : (a.column column).IsClosed :=
  (h.append (.word (by decide))).append (isClosed_name column)

theorem isClosed_join {separator : String} (hseparator : (word separator).IsClosed)
    {pieces : List Sql} (h : ∀ p ∈ pieces, p.IsClosed) : (join separator pieces).IsClosed := by
  fun_induction join separator pieces with
  | case1 => exact isClosed_empty
  | case2 p => exact h p (mem_singleton_self p)
  | case3 p rest hrest ih =>
    rw [forall_mem_cons] at h
    exact (h.1.append hseparator).append (ih h.2)

end

section

variable {s : String} {cs : List Char}

/-- The characters that part SQL text. -/
def marks : List Char := ['\'', '"', '(', ')', '[', ']', ',']

/-- The text has no quotation marks, brackets and commas. -/
def IsPlain (s : String) : Prop := ∀ c ∈ s.toList, c ∉ marks

theorem IsPlain.append {t : String} (hs : IsPlain s) (ht : IsPlain t) : IsPlain (s ++ t) := by
  rw [IsPlain, String.toList_append]
  exact forall_mem_append.2 ⟨hs, ht⟩

theorem isPlain_ofList (h : ∀ c ∈ cs, c ∉ marks) : IsPlain (String.ofList cs) := by
  rwa [IsPlain, String.toList_ofList]

theorem isPlain_literal (h : cs.all (· ∉ marks)) : IsPlain (String.ofList cs) :=
  isPlain_ofList fun c hc => of_decide_eq_true (all_eq_true.1 h c hc)

theorem not_mem_marks_of_isDigit {c : Char} (h : c.isDigit) : c ∉ marks := by
  have hmarks : marks.all (!·.isDigit) := by decide
  intro hc
  simpa [h] using all_eq_true.1 hmarks c hc

theorem scan_plain (h : IsPlain s) : Lexical.scan .outside s.toList = .outside := by
  refine Lexical.scan_outside_of_plain fun c hc => ?_
  have hmarks := h c hc
  simp only [marks, mem_cons, not_or] at hmarks
  rw [Quote.ofChar?, if_neg hmarks.1, if_neg hmarks.2.1]

theorem isPlain_nat (n : Nat) : IsPlain (toString n) := by
  rw [Nat.toString_eq_ofList_toDigits]
  refine isPlain_ofList fun c hc => not_mem_marks_of_isDigit ?_
  exact Nat.isDigit_of_mem_toDigits (by decide) (by decide) hc

theorem isPlain_int (n : Int) : IsPlain (toString n) := by
  cases n with
  | ofNat m => exact isPlain_nat m
  | negSucc m => exact IsPlain.append (isPlain_literal (by decide)) (isPlain_nat (m + 1))

@[simp] theorem isClosed_int (n : Int) : (int n).IsClosed :=
  forall_mem_singleton.2 (scan_plain (isPlain_int n))

theorem isPlain_zeros (n : Nat) : IsPlain (Layout.zeros n) :=
  isPlain_ofList fun _ hc => (eq_of_mem_replicate hc) ▸ by decide

theorem isPlain_positional (layout : Layout) (d : Digits) : IsPlain (layout.positional d) := by
  unfold Layout.positional
  have hdigits := isPlain_nat d.digits
  split
  · refine (hdigits.append (isPlain_zeros _)).append ?_
    split
    · exact isPlain_literal (by decide)
    · exact isPlain_literal (by decide)
  · have hpadded :=
      (isPlain_zeros ((-d.exponent).toNat + 1 - (toString d.digits).length)).append hdigits
    refine IsPlain.append (IsPlain.append (isPlain_ofList ?_) (isPlain_literal (by decide)))
      (isPlain_ofList ?_)
    · exact fun c hc => hpadded c (mem_of_mem_take hc)
    · exact fun c hc => hpadded c (mem_of_mem_drop hc)

theorem isPlain_scientific (layout : Layout) (d : Digits) : IsPlain (layout.scientific d) := by
  unfold Layout.scientific
  have hdigits := isPlain_nat d.digits
  have hrest : IsPlain (String.ofList ((toString d.digits).toList.drop 1)) :=
    isPlain_ofList fun c hc => hdigits c (mem_of_mem_drop hc)
  have hnone : IsPlain "" := isPlain_literal (by decide)
  refine IsPlain.append (IsPlain.append (IsPlain.append (IsPlain.append ?_ ?_)
    (isPlain_literal (by decide))) ?_) (isPlain_nat _)
  · exact isPlain_ofList fun c hc => hdigits c (mem_of_mem_take hc)
  · split
    · exact hnone
    · exact IsPlain.append (isPlain_literal (by decide)) hrest
  · split
    · exact isPlain_literal (by decide)
    · split
      · exact isPlain_literal (by decide)
      · exact hnone

theorem isPlain_render? {layout : Layout} {x : Float}
    (h : layout.render? x = some s) : IsPlain s := by
  obtain ⟨d, -, rfl⟩ := Option.map_eq_some_iff.1 h
  have htext : ∀ b : Bool, IsPlain
      (if b then layout.positional (shortest d) else layout.scientific (shortest d)) := by
    intro b
    cases b with
    | true => exact isPlain_positional layout _
    | false => exact isPlain_scientific layout _
  split
  · exact IsPlain.append (isPlain_literal (by decide)) (htext _)
  · exact htext _

@[simp] theorem isClosed_float (x : Float) : (float x).IsClosed := by
  unfold float
  split
  next s hs =>
    have hcast : Lexical.scan .outside "CAST(".toList = .outside := by decide
    rw [isClosed_word_iff, String.toList_append, String.toList_append, Lexical.scan_append,
      Lexical.scan_append, hcast, scan_plain (isPlain_render? hs)]
    decide
  · exact .word (by decide)

end

mutual

/-- A JSON value is closed: its texts are quoted. -/
@[simp] theorem isClosed_value (v : Json) : (value v).IsClosed := match v with
  | .null | .bool true | .bool false => .word (by decide)
  | .num n => by
    rw [value]
    split
    · exact isClosed_int _
    · exact isClosed_float _
  | .str s => isClosed_text s
  | .arr items => by
    have hitems : ∀ p ∈ values items, p.IsClosed := isClosed_values items
    have hlist : (join ", " (values items)).IsClosed := isClosed_join (.word (by decide)) hitems
    exact (IsClosed.append (.word (by decide)) hlist).append (.word (by decide))
  | .obj fields => isClosed_text _

theorem isClosed_values (vs : List Json) : ∀ p ∈ values vs, p.IsClosed := match vs with
  | [] => forall_mem_nil _
  | v :: rest => forall_mem_cons.2 ⟨isClosed_value v, isClosed_values rest⟩

end

end Sql

end Snowbank
