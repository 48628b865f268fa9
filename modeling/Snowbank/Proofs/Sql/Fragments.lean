import Snowbank.Proofs.Sql.Quoting

/-!
# Fragments of SQL

What is quoted is read back as one token. A reader that stands before it takes
the quotation up to the mark that closes it, a mark that is written twice
being one of its characters, and leaves what follows.

The items of a list are parted by the commas outside of all quotations and of
all brackets but its own. What the items hold never parts them: a literal is
solid, which means that a reader of the list goes through it as through one
character.

## Main definitions

* `SqlToken.read?`: The quotation at the beginning of a text.
* `list?`: The items of the list at the beginning of a text.
* `Solid`: The characters stay inside an item.

## Theorems

* `solid_value`: Literals are solid.
* `fragments_read_back`: Quotations and lists are read back.
-/

namespace Snowbank

open List

namespace Quote

/-- What a quotation holds and what follows it, for the text behind the mark that opens it. -/
def content? (q : Quote) : List Char → Option (List Char × List Char)
  | [] => none
  | c :: rest =>
    if c = q.char then
      match rest with
      | [] => some ([], [])
      | d :: more =>
        if d = q.char then (q.content? more).map (Prod.map (c :: ·) id) else some ([], d :: more)
    else (q.content? rest).map (Prod.map (c :: ·) id)

theorem content?_doubled (q : Quote) {t : List Char} (h : t.head? ≠ some q.char) (cs : List Char) :
    q.content? (Sql.doubled q.char cs ++ q.char :: t) = some (cs, t) := by
  induction cs with
  | nil =>
    cases t with
    | nil => simp [Sql.doubled, content?]
    | cons d t =>
      have hd : d ≠ q.char := by simpa using h
      simp [Sql.doubled, content?, hd]
  | cons c rest ih =>
    by_cases hc : c = q.char
    · simp [Sql.doubled, content?, hc, ih]
    · rw [content?.eq_def]
      simp [Sql.doubled, hc, ih]

/-- The token that a quotation is. -/
def token : Quote → String → SqlToken
  | single => .text
  | double => .name

end Quote

/-- The quotation at the beginning of a text, and what follows it. -/
def SqlToken.read? : List Char → Option (SqlToken × List Char)
  | [] => none
  | c :: rest => do
    let q ← Quote.ofChar? c
    let content ← q.content? rest
    some (q.token (String.ofList content.1), content.2)

theorem SqlToken.read?_quotedWith (q : Quote) (s : String) {t : List Char}
    (h : t.head? ≠ some q.char) :
    read? ((Sql.quotedWith q.char s).toList ++ t) = some (q.token s, t) := by
  rw [Sql.quotedWith, String.toList_ofList, cons_append, cons_append, append_assoc, read?,
    Quote.ofChar?_char]
  simp [q.content?_doubled h]

/-- Where a reader stands in a list: in which quotation, and inside of how many
    brackets beside those of the list. -/
structure ListPosition where
  state : Lexical
  depth : Nat
  deriving DecidableEq

namespace ListPosition

/-- The position after a character. -/
def next (p : ListPosition) (c : Char) : ListPosition :=
  ⟨p.state.next c,
    if p.state ≠ .outside then p.depth
    else if c = '[' ∨ c = '(' then p.depth + 1
    else if c = ']' ∨ c = ')' then p.depth - 1
    else p.depth⟩

/-- Characters in front of the first item. -/
def lead (cs : List Char) : Option (List (List Char) × List Char) →
    Option (List (List Char) × List Char) :=
  Option.map (Prod.map (modifyHead (cs ++ ·)) id)

/-- The texts between the commas of a list up to the bracket that closes it, and what follows.
    Commas and brackets inside of quotations and of other brackets are parts of an item. -/
def items? : ListPosition → List Char → Option (List (List Char) × List Char)
  | _, [] => none
  | p, c :: rest =>
    if p = ⟨.outside, 0⟩ ∧ c = ']' then some ([[]], rest)
    else if p = ⟨.outside, 0⟩ ∧ c = ',' then (items? p rest).map (Prod.map ([] :: ·) id)
    else lead [c] (items? (p.next c) rest)

/-- The reader goes through the characters without leaving the item. -/
def Passes (p : ListPosition) (cs : List Char) (q : ListPosition) : Prop :=
  ∀ t, p.items? (cs ++ t) = lead cs (q.items? t)

variable {p q r : ListPosition} {as bs cs : List Char} {c : Char} {depth : Nat}

theorem Passes.nil : Passes p [] p := by
  intro t
  have hid : (modifyHead ([] ++ ·) : List (List Char) → _) = id := by
    funext ps
    cases ps <;> rfl
  rw [nil_append, lead, hid, Prod.map_id, Option.map_id_apply]

theorem Passes.append (ha : Passes p as q) (hb : Passes q bs r) : Passes p (as ++ bs) r := by
  intro t
  rw [append_assoc, ha, hb, lead, lead, Option.map_map, Prod.map_comp_map]
  congr 2
  funext ps
  cases ps <;> simp

theorem Passes.char (h : p = ⟨.outside, 0⟩ → c ≠ ']' ∧ c ≠ ',') : Passes p [c] (p.next c) := by
  intro t
  rw [singleton_append, items?, if_neg fun hend => (h hend.1).1 hend.2,
    if_neg fun hend => (h hend.1).2 hend.2]

/-- The characters stay inside an item wherever they stand in a list. -/
def Solid (cs : List Char) : Prop := ∀ depth, Passes ⟨.outside, depth⟩ cs ⟨.outside, depth⟩

theorem Solid.append (ha : Solid as) (hb : Solid bs) : Solid (as ++ bs) := fun depth =>
  (ha depth).append (hb depth)

theorem solid_plain (h : ∀ c ∈ cs, c ∉ Sql.marks) : Solid cs := by
  intro depth
  induction cs with
  | nil => exact .nil
  | cons c rest ih =>
    rw [forall_mem_cons] at h
    have hc := h.1
    simp only [Sql.marks, mem_cons, not_mem_nil, or_false, not_or] at hc
    have hnext : next ⟨.outside, depth⟩ c = ⟨.outside, depth⟩ := by
      simp [next, Lexical.next, Quote.ofChar?, hc]
    have hchar := Passes.char (p := ⟨.outside, depth⟩) fun _ => hc.2.2.2.2.2
    rw [hnext] at hchar
    exact hchar.append (ih h.2)

theorem solid_literal (h : cs.all (· ∉ Sql.marks)) : Solid cs :=
  solid_plain fun c hc => of_decide_eq_true (all_eq_true.1 h c hc)

theorem solid_bracketed (h : ∀ depth, Passes ⟨.outside, depth + 1⟩ cs ⟨.outside, depth + 1⟩)
    {opening closing : Char} (hopening : opening = '[' ∨ opening = '(')
    (hclosing : closing = ']' ∨ closing = ')') : Solid (opening :: (cs ++ [closing])) := by
  intro depth
  have hin : Passes ⟨.outside, depth⟩ [opening] ⟨.outside, depth + 1⟩ := by
    rcases hopening with rfl | rfl <;> exact .char fun _ => by decide
  have hout : Passes ⟨.outside, depth + 1⟩ [closing] ⟨.outside, depth⟩ := by
    rcases hclosing with rfl | rfl <;> exact .char fun h => by cases h
  exact hin.append ((h depth).append hout)

theorem solid_quotedWith (quote : Quote) (s : String) :
    Solid (Sql.quotedWith quote.char s).toList := by
  intro depth
  have hin : Passes ⟨.outside, depth⟩ [quote.char] ⟨.inside quote, depth⟩ := by
    cases quote <;> exact .char fun _ => by decide
  have hout : Passes ⟨.inside quote, depth⟩ [quote.char] ⟨.outside, depth⟩ := by
    cases quote <;> exact .char fun h => by cases h
  -- a mark that is written twice takes the reader out and in again
  have hinside : Passes ⟨.inside quote, depth⟩ (Sql.doubled quote.char s.toList)
      ⟨.inside quote, depth⟩ := by
    induction s.toList with
    | nil => exact .nil
    | cons c rest ih =>
      rw [Sql.doubled]
      split
      · exact (hout.append hin).append ih
      next hc =>
        have hnext : next ⟨.inside quote, depth⟩ c = ⟨.inside quote, depth⟩ := by
          simp [next, Lexical.next, mt beq_iff_eq.2 hc]
        have hchar := Passes.char (p := ⟨.inside quote, depth⟩) (c := c) fun h => by cases h
        rw [hnext] at hchar
        exact hchar.append ih
  rw [Sql.quotedWith, String.toList_ofList]
  exact hin.append (hinside.append hout)

end ListPosition

namespace Sql

open ListPosition

theorem toList_render_append (a b : Sql) :
    (a ++ b).render.toList = a.render.toList ++ b.render.toList := by
  have htokens : (a ++ b).tokens = a.tokens ++ b.tokens := rfl
  rw [render, htokens, map_append, String.toList_join, flatMap_append, ← String.toList_join,
    ← String.toList_join]
  rfl

theorem render_token (t : SqlToken) : render ⟨[t]⟩ = renderToken t := by
  rw [render, map_singleton, String.join_cons, String.join_nil, String.append_empty]

theorem passes_join {depth : Nat} {pieces : List Sql} (h : ∀ p ∈ pieces, Solid p.render.toList) :
    Passes ⟨.outside, depth + 1⟩ (join ", " pieces).render.toList ⟨.outside, depth + 1⟩ := by
  fun_induction join ", " pieces with
  | case1 => exact .nil
  | case2 p => exact h p (mem_singleton_self p) (depth + 1)
  | case3 p rest hrest ih =>
    rw [forall_mem_cons] at h
    have hcomma : Passes ⟨.outside, depth + 1⟩ [','] ⟨.outside, depth + 1⟩ :=
      .char fun h => by cases h
    have hblank : Solid [' '] := solid_literal (by decide)
    rw [toList_render_append, toList_render_append]
    exact ((h.1 _).append (hcomma.append (hblank _))).append (ih h.2)

theorem toList_render_arr (items : List Json) : (value (.arr items)).render.toList =
    '[' :: ((join ", " (values items)).render.toList ++ [']']) := by
  rw [value, toList_render_append, toList_render_append]
  rfl

theorem solid_float (x : Float) : Solid (float x).render.toList := by
  unfold float
  split
  next s hs =>
    have hcast : ("CAST(" ++ s ++ " AS DOUBLE)").toList =
        "CAST".toList ++ '(' :: (s.toList ++ " AS DOUBLE".toList ++ [')']) := by
      rw [String.toList_append, String.toList_append]
      simp
    rw [word, render_token, renderToken, hcast]
    refine Solid.append (solid_literal (by decide))
      (solid_bracketed (fun _ => ?_) (.inr rfl) (.inr rfl))
    exact ((solid_plain (isPlain_render? hs)).append (solid_literal (by decide))) _
  · exact solid_literal (by decide)

mutual

theorem solid_value (v : Json) : Solid (value v).render.toList := match v with
  | .null | .bool true | .bool false => solid_literal (by decide)
  | .num n => by
    rw [value]
    split
    · rw [int, word, render_token]
      exact solid_plain (isPlain_int _)
    · exact solid_float _
  | .str s => by
    rw [value, text, render_token]
    exact solid_quotedWith .single s
  | .arr items => by
    rw [toList_render_arr]
    exact solid_bracketed (fun _ => passes_join (solid_values items)) (.inl rfl) (.inl rfl)
  | .obj fields => by
    rw [value, text, render_token]
    exact solid_quotedWith .single _

theorem solid_values (vs : List Json) : ∀ p ∈ values vs, Solid p.render.toList := match vs with
  | [] => forall_mem_nil _
  | v :: rest => forall_mem_cons.2 ⟨solid_value v, solid_values rest⟩

end

theorem render_value_ne_empty (v : Json) : (value v).render ≠ "" := by
  cases v with
  | null => decide
  | bool b => cases b <;> decide
  | num n =>
    rw [value]
    split
    next i _ =>
      rw [int, word, render_token]
      cases i with
      | ofNat m => exact Nat.repr_ne_empty
      | negSucc m =>
        change "-" ++ Nat.repr (m + 1) ≠ ""
        simp
    · unfold float
      split
      · simp [word, render_token, renderToken]
      · decide
  | str | obj => simp [value, text, render_token, renderToken, quotedWith]
  | arr items =>
    intro hempty
    have hlist := toList_render_arr items
    rw [hempty] at hlist
    cases hlist

/-- The items of a list without the blanks after its commas. -/
def unspaced : List (List Char) → List (List Char)
  | [] => []
  | first :: rest =>
    if first = [] ∧ rest = [] then []
    else first :: rest.map fun item => if item.head? = some ' ' then item.tail else item

/-- The items of the list that a text begins with, and what follows the list. -/
def list? : List Char → Option (List (List Char) × List Char)
  | '[' :: rest => (items? ⟨.outside, 0⟩ rest).map (Prod.map unspaced id)
  | _ => none

theorem items?_join (p : Sql) {rest : List Sql} (h : ∀ x ∈ p :: rest, Solid x.render.toList)
    (t : List Char) : items? ⟨.outside, 0⟩ ((join ", " (p :: rest)).render.toList ++ ']' :: t) =
      some (p.render.toList :: rest.map (' ' :: ·.render.toList), t) := by
  rw [forall_mem_cons] at h
  induction rest generalizing p with
  | nil =>
    rw [join, h.1]
    simp [items?, lead]
  | cons next rest ih =>
    rw [forall_mem_cons] at h
    have hblank : Solid [' '] := solid_literal (by decide)
    have hcomma : ∀ cs, items? ⟨.outside, 0⟩ (',' :: cs) =
        (items? ⟨.outside, 0⟩ cs).map (Prod.map ([] :: ·) id) := fun _ => rfl
    rw [join, toList_render_append, toList_render_append, append_assoc, append_assoc, h.1]
    change lead _ (items? ⟨.outside, 0⟩ (',' :: ([' '] ++ (_ ++ ']' :: t)))) = _
    rw [hcomma, hblank, ih next h.2]
    · simp [lead]
    · exact fun h => cons_ne_nil _ _ h

/-- A quoted name or text is one token, and a list is its items, whatever they
    hold and whatever follows. -/
theorem fragments_read_back (s : String) (t : List Char) :
    (t.head? ≠ some '"' → SqlToken.read? ((name s).render.toList ++ t) = some (.name s, t)) ∧
    (t.head? ≠ some '\'' →
      SqlToken.read? ((value (.str s)).render.toList ++ t) = some (.text s, t)) ∧
    ∀ items : List Json, list? ((value (.arr items)).render.toList ++ t) =
      some (items.map fun v => (value v).render.toList, t) := by
  refine ⟨fun h => ?_, fun h => ?_, fun items => ?_⟩
  · rw [name, render_token]
    exact SqlToken.read?_quotedWith .double s h
  · rw [value, text, render_token]
    exact SqlToken.read?_quotedWith .single s h
  · rw [toList_render_arr, cons_append, append_assoc, singleton_append, list?]
    cases items with
    | nil => rfl
    | cons v rest =>
      have hvalues : values rest = rest.map value := by
        induction rest with
        | nil => rfl
        | cons w rest ih => rw [values, ih, map_cons]
      rw [values, items?_join _ (solid_values (v :: rest)), hvalues]
      simp [unspaced, render_value_ne_empty]

theorem fragments_read_back_marks :
    SqlToken.read? ((name "'a', [\"").render.toList ++ [']']) = some (.name "'a', [\"", [']']) ∧
    SqlToken.read? ((value (.str "'a', [\"")).render.toList ++ [']']) =
      some (.text "'a', [\"", [']']) ∧
    list? ((value (.arr [.str "'a', [\"", .arr [.null, .null]])).render.toList ++ [']']) =
      some (["'''a'', [\"'".toList, "[NULL, NULL]".toList], [']']) :=
  have h := fragments_read_back "'a', [\"" [']']
  ⟨h.1 (by decide), h.2.1 (by decide), h.2.2 [.str "'a', [\"", .arr [.null, .null]]⟩

end Sql

end Snowbank
