import Snowbank.Proofs.Response.Edits
import Snowbank.Proofs.Snowflake.Entries

/-!
# What Comes Back of a Document

A document that has been stored and is put together again is not quite what it
was: nulls are gone, and so are objects and arrays in which nothing is left.
At the path of an array there is an array, also where there was a single value.
What stays as it was are arrays that hold arrays, which are stored as text, and
the items of arrays: an item without content is an item nevertheless.

The entries of a document say how it is put together: each is a change at its
own place, and the changes of a row make up a value.

## Main definitions

* `Legible`: Numbers are finite, and arrays can be read back from their text.
* `restored`: What comes back of a value at a path.
* `rowJson`: The value that the entries of a row make up.

## Theorems

* `readable_document`: The entries of a document can be read back.
* `rowJson_document`: They make up what is to come back of it.
-/

namespace Snowbank

open List
open Path (clean_root depth escapeKey)

variable {type : DataType} {doc : Json} {items : List Json} {key : String}

namespace Json

mutual

/-- Numbers are finite, and arrays can be read back from their text. -/
def Legible : Json → Prop
  | .num n => (Json.num n).decode.isNull = false
  | .arr items => parse? (Json.arr items).toText = some (.arr items) ∧ LegibleItems items
  | .obj fields => LegibleFields fields
  | _ => True

/-- The same for the values of fields. -/
def LegibleFields : List (String × Json) → Prop
  | [] => True
  | (_, value) :: rest => Legible value ∧ LegibleFields rest

/-- The same for items. -/
def LegibleItems : List Json → Prop
  | [] => True
  | item :: rest => Legible item ∧ LegibleItems rest

end

mutual

/-- What comes back of a value at a path, null if nothing does. -/
def restored (isArray : Path → Bool) (path : Path) : Json → Json
  | .null => .null
  | .obj fields =>
    if isArray path then .arr [.obj (restoredFields isArray path fields)]
    else if (restoredFields isArray path fields).isEmpty then .null
    else .obj (restoredFields isArray path fields)
  | .arr items =>
    if !items.any (!·.isNull) then .null
    else if isArray path then .arr (restoredItems isArray path items)
    else .arr items
  | value => if isArray path then .arr [value.decode] else value.decode

/-- What comes back of fields. -/
def restoredFields (isArray : Path → Bool) (path : Path) : List (String × Json) → Fields
  | [] => []
  | (key, value) :: rest =>
    if (restored isArray (path.append (escapeKey key)) value).isNull then
      restoredFields isArray path rest
    else
      (key, restored isArray (path.append (escapeKey key)) value) ::
        restoredFields isArray path rest

/-- What comes back of the items of an array. -/
def restoredItems (isArray : Path → Bool) (path : Path) : List Json → List Json
  | [] => []
  | .null :: rest => restoredItems isArray path rest
  | .obj fields :: rest =>
    .obj (restoredFields isArray path fields) :: restoredItems isArray path rest
  | .arr items :: rest => .arr items :: restoredItems isArray path rest
  | value :: rest => value.decode :: restoredItems isArray path rest

end

/-- What comes back of a document. -/
def restoredDocument (isArray : Path → Bool) : Json → Json
  | .obj fields => .obj (restoredFields isArray .root fields)
  | value => value

mutual

/-- Every number in a value has a property. -/
def Numbers (P : Number → Prop) : Json → Prop
  | .num n => P n
  | .arr items => NumbersItems P items
  | .obj fields => NumbersFields P fields
  | _ => True

/-- The same for the values of fields. -/
def NumbersFields (P : Number → Prop) : List (String × Json) → Prop
  | [] => True
  | (_, value) :: rest => Numbers P value ∧ NumbersFields P rest

/-- The same for items. -/
def NumbersItems (P : Number → Prop) : List Json → Prop
  | [] => True
  | item :: rest => Numbers P item ∧ NumbersItems P rest

end

/-- A number is read back as one. -/
def Shown (n : Number) : Prop := (Json.num n).decode.isNull = false

/-- The value is there and has no parts. -/
def isScalar : Json → Bool
  | .null | .arr _ | .obj _ => false
  | _ => true

theorem ne_of_isScalar {v : Json} (h : v.isScalar) :
    v ≠ .null ∧ (∀ fields, v ≠ .obj fields) ∧ ∀ items, v ≠ .arr items := by
  refine ⟨?_, fun fields => ?_, fun items => ?_⟩ <;> (rintro rfl; cases h)

/-- A value that is there and has nothing beneath it. -/
def IsTip (v : Json) : Prop := v.isNull = false ∧ v.isObj = false

/-- A row without values is an object without fields. -/
def orEmpty (v : Json) : Json := if v.isNull then .obj [] else v

mutual

theorem Legible.numbers : (value : Json) → value.Legible → value.Numbers Shown
  | .num _, hn => hn
  | .arr items, harr => LegibleItems.numbers items harr.2
  | .obj fields, hfields => LegibleFields.numbers fields hfields
  | .null, _ | .bool _, _ | .str _, _ => trivial

theorem LegibleFields.numbers :
    (fields : List (String × Json)) → LegibleFields fields → NumbersFields Shown fields
  | [], _ => trivial
  | (_, value) :: rest, hfields =>
    ⟨Legible.numbers value hfields.1, LegibleFields.numbers rest hfields.2⟩

theorem LegibleItems.numbers : (items : List Json) → LegibleItems items → NumbersItems Shown items
  | [], _ => trivial
  | item :: rest, hitems => ⟨Legible.numbers item hitems.1, LegibleItems.numbers rest hitems.2⟩

end

theorem isObj_decode_num (n : Number) : (Json.num n).decode.isObj = false := by
  rw [decode]
  split
  · rfl
  · rw [ofFloat]
    split
    · rfl
    · rw [float]
      split <;> rfl

theorem Reader.value_bracket {fuel depth : Nat} {rest tail : List Char} {v : Json}
    (h : value (fuel + 1) depth ('[' :: rest) = .ok (v, tail)) : v.IsTip := by
  change (if depth ≤ 1 then _ else _) = _ at h
  split at h
  · cases h
  · split at h
    · cases h
    · cases h
      exact ⟨rfl, rfl⟩
    · cases hread : items fuel (depth - 1) (skip rest) with
      | error f => rw [hread] at h; cases h
      | ok found =>
        rw [hread] at h
        cases h
        exact ⟨rfl, rfl⟩

theorem isTip_parse?_toText (items : List Json) :
    ((parse? (Json.arr items).toText).getD (.str (Json.arr items).toText)).IsTip := by
  cases hread : parse? (Json.arr items).toText with
  | none => exact ⟨rfl, rfl⟩
  | some v =>
    have htext : ∃ rest, (Json.arr items).toText.toList = '[' :: rest := by
      rw [toText, String.append_assoc, String.toList_append]
      exact ⟨_, rfl⟩
    obtain ⟨rest, htext⟩ := htext
    rw [parse?, parse, Reader.front, htext] at hread
    cases hfront : Reader.value (2 * ('[' :: rest).length + 2) 128 ('[' :: rest) with
    | error f => rw [hfront] at hread; cases hread
    | ok found =>
      obtain ⟨u, tail⟩ := found
      rw [hfront, Reader.whole] at hread
      split at hread
      · cases hread
        exact Reader.value_bracket hfront
      · cases hread

end Json

namespace Entry

open Json

/-- The value of a cell. -/
def read (type : DataType) (value : Json) : Json := typedValue type.storage value value.decode

mutual

/-- The change that an entry makes to the value at a path above it. -/
def edit (base : Path) : Entry → Edit
  | cell path type value => ⟨path.keys.drop base.depth, fun _ => read type value⟩
  | rows path items => ⟨path.keys.drop base.depth, pushAll (itemValues path items)⟩

/-- The changes that entries make. -/
def edits (base : Path) : List Entry → List Edit
  | [] => []
  | e :: rest => edit base e :: edits base rest

/-- The values of the rows of an array. -/
def itemValues (path : Path) : List (List Entry) → List Json
  | [] => []
  | item :: rest => orEmpty ((run (edits path item) .null).getD .null) :: itemValues path rest

end

/-- The value that the entries of a row make up. -/
def rowJson (home : Path) (entries : List Entry) : Json :=
  orEmpty ((run (entries.map (edit home)) .null).getD .null)

/-- The entries of a row can be read back: the row is one cell, or its entries
    lie beneath it, none of them in another one. -/
inductive Readable : Path → List Entry → Prop
  | single {home : Path} {type : DataType} {value : Json} (clean : home.Clean)
      (present : (read type value).IsTip) : Readable home [cell home type value]
  | fields {home : Path} {entries : List Entry} (clean : ∀ e ∈ entries, e.path.Clean)
      (beneath : ∀ e ∈ entries, home.keys <+: e.path.keys ∧ e.path.keys ≠ home.keys)
      (apart : entries.Pairwise fun d e => Apart d.path.keys e.path.keys)
      (present : ∀ path type value, cell path type value ∈ entries → (read type value).IsTip)
      (below : ∀ path items, rows path items ∈ entries → ∀ item ∈ items, Readable path item) :
      Readable home entries

section

variable {value : Json}

theorem edits_eq (base : Path) (entries : List Entry) :
    edits base entries = entries.map (edit base) := by
  induction entries with
  | nil => rfl
  | cons e rest ih => rw [edits, ih, map_cons]

theorem itemValues_eq (path : Path) (items : List (List Entry)) :
    itemValues path items = items.map (rowJson path) := by
  induction items with
  | nil => rfl
  | cons item rest ih => rw [itemValues, ih, map_cons, rowJson, edits_eq]

theorem keys_edit (base : Path) (e : Entry) : (e.edit base).keys = e.path.keys.drop base.depth := by
  cases e <;> rfl

theorem edit_child {path : Path} (hpath : path.Clean) (hkey : Path.CleanKey key)
    {e : Entry} (h : (path.append (escapeKey key)).keys <+: e.path.keys) :
    e.edit path = (e.edit (path.append (escapeKey key))).under key := by
  rw [hpath.keys_child hkey] at h
  obtain ⟨more, hmore⟩ := h
  have hdepth : (path.append (escapeKey key)).depth = path.depth + 1 := by
    rw [Path.depth, hpath.keys_child hkey, length_append, length_singleton, Path.depth]
  have hkeys : e.path.keys.drop path.depth =
      key :: e.path.keys.drop (path.append (escapeKey key)).depth := by
    rw [hdepth, ← hmore]
    simp [Path.depth]
  cases e with
  | cell p type value | rows p items => exact congrArg (Edit.mk · _) hkeys

theorem read_scalar (hscalar : value.isScalar) : read (.ofJson value) value = value.decode := by
  cases value with
  | null | obj | arr => cases hscalar
  | num n => cases n <;> rfl
  | _ => rfl

theorem isTip_decode (hscalar : value.isScalar) (h : value.Numbers Shown) : value.decode.IsTip := by
  cases value with
  | null | obj | arr => cases hscalar
  | num n => exact ⟨h, isObj_decode_num n⟩
  | _ => exact ⟨rfl, rfl⟩

theorem read_text (h : (Json.arr items).Legible) :
    read .object (.str (Json.arr items).toText) = .arr items := by
  change (parse? (Json.arr items).toText).getD _ = _
  rw [h.1, Option.getD_some]

end

/-- Entries lie at or beneath a path, none of them in another one, and can be read back. -/
structure Spread (path : Path) (entries : List Entry) : Prop where
  clean : ∀ e ∈ entries, e.path.Clean
  beneath : ∀ e ∈ entries, path.keys <+: e.path.keys
  apart : entries.Pairwise fun d e => Apart d.path.keys e.path.keys
  present : ∀ path type value, cell path type value ∈ entries → (read type value).IsTip
  below : ∀ path items, rows path items ∈ entries → ∀ item ∈ items, Readable path item

section

variable {path : Path} {key : String}

variable {value : Json} {entries : List Entry}

theorem spread_nil (path : Path) : Spread path [] :=
  ⟨fun _ h => absurd h not_mem_nil, fun _ h => absurd h not_mem_nil, .nil, fun _ _ _ h =>
    absurd h not_mem_nil,
    fun _ _ h => absurd h not_mem_nil⟩

theorem spread_cell (hpath : path.Clean)
    (h : (read type value).IsTip) : Spread path [cell path type value] where
  clean := fun _ he => mem_singleton.1 he ▸ hpath
  beneath := fun _ he => mem_singleton.1 he ▸ prefix_rfl
  apart := pairwise_singleton _ _
  present := by
    intro p t v hv
    cases mem_singleton.1 hv
    exact h
  below := fun _ _ h => nomatch mem_singleton.1 h

theorem spread_rows (hpath : path.Clean) {items : List (List Entry)}
    (h : ∀ item ∈ items, Readable path item) : Spread path [rows path items] where
  clean := fun _ he => mem_singleton.1 he ▸ hpath
  beneath := fun _ he => mem_singleton.1 he ▸ prefix_rfl
  apart := pairwise_singleton _ _
  present := fun _ _ _ h => nomatch mem_singleton.1 h
  below := by
    intro p is his
    cases mem_singleton.1 his
    exact h

/-- The entries of one field beside those of the fields after it. -/
theorem Spread.cons (hpath : path.Clean) (hkey : Path.CleanKey key) {more : List Entry}
    (h : Spread (path.append (escapeKey key)) entries) (hmore : Spread path more)
    (hothers : ∀ e ∈ more, ∃ other, other ≠ key ∧ path.keys ++ [other] <+: e.path.keys) :
    Spread path (entries ++ more) where
  clean := fun e he => (mem_append.1 he).elim (h.clean e) (hmore.clean e)
  beneath := by
    intro e he
    rcases mem_append.1 he with he | he
    · exact ((hpath.keys_child hkey ▸ prefix_append _ _) : path.keys <+: _).trans (h.beneath e he)
    · exact hmore.beneath e he
  apart := by
    refine pairwise_append.2 ⟨h.apart, hmore.apart, fun d hd e he => ?_⟩
    obtain ⟨other, hne, hother⟩ := hothers e he
    have hd := h.beneath d hd
    rw [hpath.keys_child hkey] at hd
    -- beneath two keys no place lies in another
    have hclash : ∀ {ks : List String}, path.keys ++ [key] <+: ks →
        ¬ path.keys ++ [other] <+: ks := by
      intro ks hk ho
      have hsame := (prefix_of_prefix_length_le hk ho (by simp)).eq_of_length (by simp)
      exact hne (by simpa using (append_cancel_left hsame).symm)
    exact ⟨fun hp => hclash (hd.trans hp) hother, fun hp => hclash hd (hother.trans hp)⟩
  present := fun p t v hv => (mem_append.1 hv).elim (h.present p t v) (hmore.present p t v)
  below := fun p is his => (mem_append.1 his).elim (h.below p is) (hmore.below p is)

theorem Spread.readable (h : Spread path entries)
    (hstrict : ∀ e ∈ entries, ∃ key, path.keys ++ [key] <+: e.path.keys) :
    Readable path entries := by
  refine .fields h.clean (fun e he => ⟨h.beneath e he, fun heq => ?_⟩) h.apart h.present h.below
  obtain ⟨key, hkey⟩ := hstrict e he
  exact absurd (heq ▸ hkey).length_le (by simp)

theorem readable_scalar (hpath : path.Clean) (hscalar : value.isScalar)
    (h : value.Numbers Shown) : Readable path (scalar path value) :=
  .single hpath (by rw [read_scalar hscalar]; exact isTip_decode hscalar h)

end

section

variable (isNested : Path → Bool)

theorem spread_scalar (home : Path) {path : Path} (hpath : path.Clean) {value : Json}
    (hscalar : value.isScalar) (h : value.Numbers Shown) :
    Spread path (ofJson isNested home path value) := by
  obtain ⟨hnull, hobj, harr⟩ := ne_of_isScalar hscalar
  rw [ofJson.eq_4 _ _ _ _ hnull hobj harr]
  split
  · refine spread_rows hpath fun item hitem => ?_
    rw [mem_singleton.1 hitem]
    exact readable_scalar hpath hscalar h
  · refine spread_cell hpath ?_
    rw [read_scalar hscalar]
    exact isTip_decode hscalar h

mutual

theorem spread_ofJson (home : Path) {path : Path} (hpath : path.Clean) :
    (value : Json) → value.Tidy → value.Numbers Shown →
    Spread path (ofJson isNested home path value)
  | .null, _, _ => by
    exact spread_nil path
  | .obj fields, htidy, hnumbers => by
    rw [ofJson]
    split
    · obtain ⟨hspread, hkeys⟩ := spread_ofFields path hpath fields htidy.1 htidy.2 hnumbers
      refine spread_rows hpath fun item hitem => ?_
      rw [mem_singleton.1 hitem]
      exact hspread.readable fun e he => (hkeys e he).imp fun _ h => h.2
    · exact (spread_ofFields home hpath fields htidy.1 htidy.2 hnumbers).1
  | .arr items, htidy, hnumbers => by
    rw [ofJson]
    split
    · exact spread_nil path
    · split
      · exact spread_rows hpath (readable_ofItems hpath items htidy hnumbers)
      · exact spread_cell hpath (isTip_parse?_toText items)
  | .bool _, _, hnumbers | .num _, _, hnumbers | .str _, _, hnumbers =>
    spread_scalar isNested home hpath rfl hnumbers

theorem spread_ofFields (home : Path) {path : Path} (hpath : path.Clean) :
    (fields : List (String × Json)) → Ordered.Increasing (fields.map Prod.fst) →
      TidyFields fields → NumbersFields Shown fields →
      Spread path (ofFields isNested home path fields) ∧ ∀ e ∈ ofFields isNested home path fields,
          ∃ key, key ∈ fields.map Prod.fst ∧ path.keys ++ [key] <+: e.path.keys
  | [], _, _, _ => by
    exact ⟨spread_nil path, fun _ h => absurd h not_mem_nil⟩
  | (key, value) :: rest, hkeys, htidy, hnumbers => by
    obtain ⟨hkey, hvalue, hrest⟩ := htidy
    have hfirst := spread_ofJson home (hpath.child hkey) value hvalue hnumbers.1
    obtain ⟨hmore, hothers⟩ := spread_ofFields home hpath rest hkeys.of_cons hrest hnumbers.2
    refine ⟨hfirst.cons hpath hkey hmore fun e he => ?_, fun e he => ?_⟩
    · obtain ⟨other, hmem, hother⟩ := hothers e he
      exact ⟨other, fun heq => (nodup_cons.1 hkeys.nodup).1 (heq ▸ hmem), hother⟩
    · rcases mem_append.1 he with he | he
      · exact ⟨key, mem_cons_self, hpath.keys_child hkey ▸ hfirst.beneath e he⟩
      · obtain ⟨other, hmem, hother⟩ := hothers e he
        exact ⟨other, mem_cons_of_mem _ hmem, hother⟩

theorem readable_ofItems {path : Path} (hpath : path.Clean) :
    (items : List Json) → TidyItems items → NumbersItems Shown items →
      ∀ item ∈ ofItems isNested path items, Readable path item
  | [], _, _ => by
    exact fun _ h => absurd h not_mem_nil
  | item :: rest, htidy, hnumbers => by
    rw [TidyItems] at htidy
    have hrest := readable_ofItems hpath rest htidy.2 hnumbers.2
    have hone : ∀ {entries}, Readable path entries →
        ∀ row ∈ entries :: ofItems isNested path rest, Readable path row := fun h row hrow =>
      (mem_cons.1 hrow).elim (fun heq => heq ▸ h) (hrest row)
    match item with
    | .null => exact hrest
    | .obj fields =>
      obtain ⟨h, hkeys⟩ := spread_ofFields path hpath fields htidy.1.1 htidy.1.2 hnumbers.1
      exact hone (h.readable fun e he => (hkeys e he).imp fun _ hkey => hkey.2)
    | .arr inner => exact hone (.single hpath (isTip_parse?_toText inner))
    | .bool _ | .num _ | .str _ => exact hone (readable_scalar hpath rfl hnumbers.1)

end

end

section

variable {isNested : Path → Bool} {path : Path}

variable {value : Json} {entries : List Entry} {fields : Fields}

theorem drop_depth (path : Path) : path.keys.drop path.depth = [] := by
  rw [Path.depth, drop_length]

theorem run_rows {items : List (List Entry)} (h : items ≠ []) :
    run ([rows path items].map (edit path)) .null = some (.arr (items.map (rowJson path))) := by
  have hvalues : itemValues path items ≠ [] := by
    rw [itemValues_eq]
    exact fun hnil => h (map_eq_nil_iff.1 hnil)
  rw [map_singleton, run_cons, edit, drop_depth, ← itemValues_eq, ← pushAll_null hvalues]
  rfl

theorem run_cell (path : Path) (type : DataType) (value : Json) :
    run ([cell path type value].map (edit path)) .null = some (read type value) := by
  rw [map_singleton, run_cons, edit, drop_depth]
  rfl

theorem rowJson_cell (path : Path)
    (h : (read type value).isNull = false) :
    rowJson path [cell path type value] = read type value := by
  rw [rowJson, run_cell, Option.getD_some, orEmpty, if_neg (by rw [h]; exact Bool.false_ne_true)]

theorem rowJson_scalar (hscalar : value.isScalar) (h : value.Legible) :
    rowJson path (scalar path value) = value.decode := by
  have hread := read_scalar hscalar
  rw [scalar, rowJson_cell, hread]
  rw [hread]
  exact (isTip_decode hscalar (Legible.numbers value h)).1

theorem rowJson_text (h : (Json.arr items).Legible) :
    rowJson path (text path items) = .arr items := by
  rw [text, rowJson_cell, read_text h]
  rw [read_text h]
  rfl

section

variable (hkeys : ∀ e ∈ entries, ∃ key, path.keys ++ [key] <+: e.path.keys)
  (hrun : run (entries.map (edit path)) (.obj []) = some (.obj fields))
include hkeys hrun

/-- What has been written into an object without fields is written as well
    where there was nothing. -/
theorem run_null_of_obj (hsome : entries ≠ []) :
    run (entries.map (edit path)) .null = some (.obj fields) := by
  rw [run_null (fun hnil => hsome (map_eq_nil_iff.1 hnil)), hrun]
  refine forall_mem_map.2 fun e he => ?_
  obtain ⟨key, hkey⟩ := hkeys e he
  rw [keys_edit]
  intro hnil
  have hle := hkey.length_le
  rw [drop_eq_nil_iff, Path.depth] at hnil
  simp at hle
  omega

theorem rowJson_fields : rowJson path entries = .obj fields := by
  rw [rowJson]
  by_cases hnil : entries = []
  · rw [hnil] at hrun ⊢
    exact Option.some.inj hrun
  · rw [run_null_of_obj hkeys hrun hnil]
    rfl

end

/-- What a value holds, written where there was nothing, is what is to come back of it. -/
structure Restores (isNested : Path → Bool) (path : Path) (value : Json)
    (entries : List Entry) : Prop where
  run : run (entries.map (edit path)) .null = some (restored isNested path value)
  nothing : (restored isNested path value).isNull → entries = []

theorem restores_scalar {home : Path} (hhome : home.depth < path.depth)
    (hscalar : value.isScalar) (h : value.Legible) :
    Restores isNested path value (ofJson isNested home path value) := by
  have hne : (path != home) := bne_iff_ne.2 fun heq => absurd (heq ▸ hhome) (Nat.lt_irrefl _)
  obtain ⟨hnull, hobj, harr⟩ := ne_of_isScalar hscalar
  have hread := read_scalar hscalar
  have hdecode := (isTip_decode hscalar (Legible.numbers value h)).1
  rw [ofJson.eq_4 _ _ _ _ hnull hobj harr, hne, Bool.true_and]
  by_cases hnested : isNested path
  · have hrestored : restored isNested path value = .arr [value.decode] := by
      rw [restored.eq_4 _ _ _ hnull hobj harr, if_pos hnested]
    rw [if_pos hnested]
    refine ⟨?_, fun hnone => ?_⟩
    · rw [run_rows (cons_ne_nil _ _), hrestored, map_singleton, rowJson_scalar hscalar h]
    · rw [hrestored] at hnone
      cases hnone
  · have hrestored : restored isNested path value = value.decode := by
      rw [restored.eq_4 _ _ _ hnull hobj harr, if_neg hnested]
    rw [if_neg hnested]
    refine ⟨?_, fun hnone => ?_⟩
    · rw [scalar, run_cell, hread, hrestored]
    · rw [hrestored, hdecode] at hnone
      cases hnone

theorem restores_fields {fields : List (String × Json)}
    (hkeys : ∀ e ∈ entries, ∃ key, path.keys ++ [key] <+: e.path.keys)
    (hrun : run (entries.map (edit path)) (.obj []) =
      some (.obj (restoredFields isNested path fields)))
    (hnothing : restoredFields isNested path fields = [] → entries = [])
    (hnested : ¬isNested path) : Restores isNested path (.obj fields) entries := by
  by_cases hnil : restoredFields isNested path fields = []
  · rw [hnothing hnil]
    exact ⟨by rw [restored, if_neg hnested, hnil]; rfl, fun _ => rfl⟩
  · have hrestored : restored isNested path (.obj fields) =
        .obj (restoredFields isNested path fields) := by
      rw [restored, if_neg hnested, if_neg fun h => hnil (List.isEmpty_iff.1 h)]
    have hsome : entries ≠ [] := by
      intro hentries
      rw [hentries] at hrun
      exact hnil (Json.obj.inj (Option.some.inj hrun)).symm
    refine ⟨by rw [run_null_of_obj hkeys hrun hsome, hrestored], fun hnone => ?_⟩
    rw [hrestored] at hnone
    cases hnone

/-- The entries of a field, written after those of the fields before it. -/
theorem run_field (hpath : path.Clean) (hkey : Path.CleanKey key)
    (hspread : Spread (path.append (escapeKey key)) entries)
    (h : Restores isNested (path.append (escapeKey key)) value entries) {before : Fields}
    (hbefore : ∀ a ∈ before, compare key a.1 = .gt) :
    run (entries.map (edit path)) (.obj before) = some (.obj
      (if (restored isNested (path.append (escapeKey key)) value).isNull then before
       else before ++ [(key, restored isNested (path.append (escapeKey key)) value)])) := by
  have hedits : entries.map (edit path) =
      (entries.map (edit (path.append (escapeKey key)))).map (Edit.under key) := by
    rw [map_map]
    exact map_congr_left fun e he => edit_child hpath hkey (hspread.beneath e he)
  split
  next hnone =>
    rw [h.nothing hnone]
    rfl
  next hsome =>
    have hentries : entries.map (edit (path.append (escapeKey key))) ≠ [] := by
      intro hnil
      have hrun := h.run
      rw [hnil] at hrun
      exact hsome ((Option.some.inj hrun) ▸ rfl)
    rw [hedits, run_under key hentries, field_eq_null hbefore, h.run, Option.map_some,
      Ordered.insert_eq_append hbefore]

variable (isNested)

mutual

theorem restores_ofJson {home path : Path} (hpath : path.Clean) (hhome : home.depth < path.depth) :
    (value : Json) → value.Tidy → value.Legible →
      Restores isNested path value (ofJson isNested home path value)
  | .null, _, _ => by
    exact ⟨rfl, fun _ => rfl⟩
  | .obj fields, htidy, hlegible => by
    have hne : (path != home) :=
      bne_iff_ne.2 fun heq => absurd (heq ▸ hhome) (Nat.lt_irrefl _)
    rw [ofJson, hne, Bool.true_and]
    by_cases hnested : isNested path
    · have hkeys := (spread_ofFields isNested path hpath fields htidy.1 htidy.2
        (LegibleFields.numbers fields hlegible)).2
      have hrun := (restores_ofFields hpath (Nat.le_refl _) fields htidy.1 htidy.2 hlegible).1 []
        fun _ h => absurd h not_mem_nil
      have hrow := rowJson_fields (fun e he => (hkeys e he).imp fun _ h => h.2) hrun
      rw [if_pos hnested]
      refine ⟨?_, fun hnone => ?_⟩
      · rw [run_rows (cons_ne_nil _ _), map_singleton, hrow, restored, if_pos hnested]
        rfl
      · rw [restored, if_pos hnested] at hnone
        exact absurd hnone Bool.false_ne_true
    · have hkeys := (spread_ofFields isNested home hpath fields htidy.1 htidy.2
        (LegibleFields.numbers fields hlegible)).2
      obtain ⟨hrun, hnothing⟩ :=
        restores_ofFields hpath (Nat.le_of_lt hhome) fields htidy.1 htidy.2 hlegible
      have hrun := hrun [] fun _ h => absurd h not_mem_nil
      rw [if_neg hnested]
      refine restores_fields (fun e he => (hkeys e he).imp fun _ h => h.2) hrun hnothing hnested
  | .arr items, htidy, hlegible => by
    have hne : (path != home) :=
      bne_iff_ne.2 fun heq => absurd (heq ▸ hhome) (Nat.lt_irrefl _)
    rw [ofJson, hne, Bool.true_and]
    by_cases hsome : (!items.any (!·.isNull))
    · rw [if_pos hsome]
      exact ⟨by rw [restored, if_pos hsome]; rfl, fun _ => rfl⟩
    · rw [if_neg hsome]
      by_cases hnested : isNested path
      · have hitems : ofItems isNested path items ≠ [] := ofItems_ne_nil (by simpa using hsome)
        have hvalues := rowJson_ofItems hpath items htidy hlegible.2
        rw [if_pos hnested]
        refine ⟨?_, fun hnone => ?_⟩
        · rw [run_rows hitems, hvalues, restored, if_neg hsome, if_pos hnested]
        · rw [restored, if_neg hsome, if_pos hnested] at hnone
          exact absurd hnone Bool.false_ne_true
      · rw [if_neg hnested]
        refine ⟨?_, fun hnone => ?_⟩
        · rw [text, run_cell, read_text hlegible, restored, if_neg hsome, if_neg hnested]
        · rw [restored, if_neg hsome, if_neg hnested] at hnone
          exact absurd hnone Bool.false_ne_true
  | .bool _, _, hlegible | .num _, _, hlegible | .str _, _, hlegible =>
    restores_scalar hhome rfl hlegible

theorem restores_ofFields {home path : Path} (hpath : path.Clean)
    (hhome : home.depth ≤ path.depth) :
    (fields : List (String × Json)) → Ordered.Increasing (fields.map Prod.fst) →
      TidyFields fields → LegibleFields fields →
      (∀ before : Fields, (∀ a ∈ before, ∀ key ∈ fields.map Prod.fst, compare key a.1 = .gt) →
        run ((ofFields isNested home path fields).map (edit path)) (.obj before) =
          some (.obj (before ++ restoredFields isNested path fields))) ∧
      (restoredFields isNested path fields = [] → ofFields isNested home path fields = [])
  | [], _, _, _ => by
    rw [restoredFields]
    exact ⟨fun before _ => by rw [append_nil]; rfl, fun _ => rfl⟩
  | (key, value) :: rest, hkeys, htidy, hlegible => by
    obtain ⟨hkey, hvalue, hrest⟩ := htidy
    have hdepth : home.depth < (path.append (escapeKey key)).depth := by
      rw [Path.depth, Path.depth, hpath.keys_child hkey, length_append, length_singleton]
      exact Nat.lt_succ_of_le hhome
    have hspread := spread_ofJson isNested home (hpath.child hkey) value hvalue
      (Legible.numbers value hlegible.1)
    have hfirst := restores_ofJson (hpath.child hkey) hdepth value hvalue hlegible.1
    obtain ⟨hmore, hnothing⟩ := restores_ofFields hpath hhome rest hkeys.of_cons hrest hlegible.2
    rw [ofFields, restoredFields]
    refine ⟨fun before hbefore => ?_, fun hnil => ?_⟩
    · have hhead : ∀ a ∈ before, compare key a.1 = .gt := fun a ha =>
        hbefore a ha key mem_cons_self
      rw [map_append, run_append, run_field hpath hkey hspread hfirst hhead, Option.bind_some]
      split
      · exact hmore before fun a ha k hk => hbefore a ha k (.tail _ hk)
      · rw [hmore, append_assoc]
        · rfl
        · intro a ha k hk
          rcases mem_append.1 ha with ha | ha
          · exact hbefore a ha k (.tail _ hk)
          · rw [mem_singleton.1 ha]
            exact Std.OrientedCmp.gt_of_lt ((pairwise_cons.1 hkeys).1 k hk)
    · split at hnil
      next hnone =>
        rw [hfirst.nothing hnone, hnothing hnil]
        rfl
      · exact absurd hnil (cons_ne_nil _ _)

theorem rowJson_ofItems {path : Path} (hpath : path.Clean) :
    (items : List Json) → TidyItems items → LegibleItems items →
      (ofItems isNested path items).map (rowJson path) = restoredItems isNested path items
  | [], _, _ => by
    rw [restoredItems]
    rfl
  | item :: rest, htidy, hlegible => by
    rw [TidyItems] at htidy
    rw [LegibleItems] at hlegible
    have hrest := rowJson_ofItems hpath rest htidy.2 hlegible.2
    have hscalar : ∀ {value : Json}, rowJson path (scalar path value) = value.decode →
        (scalar path value :: ofItems isNested path rest).map (rowJson path) =
          value.decode :: restoredItems isNested path rest := fun h => by
      rw [map_cons, h, hrest]
    match item with
    | .null =>
      rw [restoredItems]
      exact hrest
    | .obj fields =>
      have hkeys :=
        (spread_ofFields isNested path hpath fields htidy.1.1 htidy.1.2
          (LegibleFields.numbers fields hlegible.1)).2
      have hrun := (restores_ofFields hpath (Nat.le_refl _) fields htidy.1.1 htidy.1.2
        hlegible.1).1 [] fun _ h => absurd h not_mem_nil
      rw [ofItems, map_cons, hrest,
        rowJson_fields (fun e he => (hkeys e he).imp fun _ h => h.2) hrun]
      rfl
    | .arr inner => rw [ofItems, restoredItems, map_cons, hrest, rowJson_text hlegible.1]
    | .bool _ | .num _ | .str _ => exact hscalar (rowJson_scalar rfl hlegible.1)

end

theorem ofJson_document (fields : Fields) : ofJson isNested .root .root (.obj fields) =
    ofFields isNested .root .root fields := by
  rw [ofJson, bne_self_eq_false]
  rfl

theorem readable_document (hdoc : doc.Document) (hnumbers : doc.Numbers Shown) :
    Readable .root (ofJson isNested .root .root doc) := by
  cases doc with
  | obj fields =>
    have htidy := hdoc.2
    obtain ⟨hspread, hkeys⟩ :=
      spread_ofFields isNested .root clean_root fields htidy.1 htidy.2 hnumbers
    rw [ofJson_document]
    exact hspread.readable fun e he => (hkeys e he).imp fun _ h => h.2
  | _ => exact absurd hdoc.1 Bool.false_ne_true

theorem rowJson_document (hdoc : doc.Document) (hlegible : doc.Legible) :
    Readable .root (ofJson isNested .root .root doc) ∧
      rowJson .root (ofJson isNested .root .root doc) = restoredDocument isNested doc := by
  refine ⟨readable_document isNested hdoc (Legible.numbers doc hlegible), ?_⟩
  cases doc with
  | obj fields =>
    have htidy := hdoc.2
    have hkeys := (spread_ofFields isNested .root clean_root fields htidy.1 htidy.2
      (LegibleFields.numbers fields hlegible)).2
    have hrun := (restores_ofFields isNested clean_root (Nat.le_refl _) fields htidy.1 htidy.2
      hlegible).1 [] fun _ h => absurd h not_mem_nil
    rw [ofJson_document]
    exact rowJson_fields (fun e he => (hkeys e he).imp fun _ h => h.2) hrun
  | _ => exact absurd hdoc.1 Bool.false_ne_true

end

end Entry

end Snowbank
