import Snowbank.Proofs.Ordered

/-!
# Records of Columns

A column is stored as a record whose fields are texts and numbers; the arrays
around it are one text, a JSON list. The record gives the column back, whatever
characters the names of arrays have.

## Theorems

* `readNesting_toText`: The list of arrays is read back.
* `ofRecord_toRecord`: The column is read back.
-/

namespace Snowbank

open List Json Reader Ordered Option DataType

namespace Json

namespace Reader

theorem hex4?_hexByte {n : Nat} (h : n < 0x20) :
    hex4? '0' '0' (Nat.digitChar (n / 16)) (Nat.digitChar (n % 16)) = some n := by
  revert n
  decide

theorem string_escapeChar (c : Char) {rest tail cs : List Char} (h : string rest = .ok (cs, tail)) :
    string ((escapeChar c).toList ++ rest) = .ok (c :: cs, tail) := by
  unfold escapeChar
  split
  iterate 7
    · simp [string, shortEscape?, h, Except.map]
  next hquote hslash _ _ _ _ _ =>
    split
    next hcontrol =>
      have hlow : ¬0xD800 ≤ c.toNat := by omega
      have hhigh : ¬0xDC00 ≤ c.toNat := by omega
      simp [hexByte, string, hex4?_hexByte hcontrol, hlow, hhigh, h, Except.map]
    next hplain =>
      rw [Char.toString, String.toList_singleton, singleton_append, string, if_neg hplain, h]
      · rfl
      all_goals simp_all

theorem string_stringText (cs rest : List Char) :
    string (cs.flatMap (fun c => (escapeChar c).toList) ++ '"' :: rest) = .ok (cs, rest) := by
  induction cs with
  | nil => rfl
  | cons c more ih =>
    rw [flatMap_cons, append_assoc]
    exact string_escapeChar c ih

theorem text_stringText (s : String) (rest : List Char) :
    text ((stringText s).toList ++ rest) = .ok (s, rest) := by
  have hchars : (stringText s).toList ++ rest =
      '"' :: (s.toList.flatMap (fun c => (escapeChar c).toList) ++ '"' :: rest) := by
    simp [stringText, String.toList_join, flatMap_map]
  rw [hchars]
  change (string _).map _ = _
  rw [string_stringText]
  simp [Except.map]

/-- The items of a list after the first, and its end. -/
def moreTexts (items : List String) (rest : List Char) : List Char :=
  items.flatMap (fun s => ',' :: (stringText s).toList) ++ ']' :: rest

theorem length_le_moreTexts (items : List String) (rest : List Char) :
    items.length ≤ (moreTexts items rest).length := by
  induction items with
  | nil => exact Nat.zero_le _
  | cons s more ih =>
    simp only [moreTexts, flatMap_cons, length_append, length_cons] at ih ⊢
    omega

theorem toList_intercalate_stringText (s : String) (items : List String) :
    (",".intercalate ((s :: items).map stringText)).toList ++ [']'] =
      (stringText s).toList ++ moreTexts items [] := by
  induction items generalizing s with
  | nil => simp [moreTexts]
  | cons next more ih =>
    have hnext := ih next
    simp only [map_cons, String.intercalate_cons_cons, String.toList_append,
      append_assoc] at hnext ⊢
    rw [hnext]
    simp [moreTexts]

theorem texts_stringText (s : String) (items : List String) (rest : List Char) {fuel : Nat}
    (hfuel : items.length < fuel) :
    texts fuel ((stringText s).toList ++ moreTexts items rest) = .ok (s :: items, rest) := by
  induction items generalizing s fuel with
  | nil =>
    cases fuel with
    | zero => cases hfuel
    | succ fuel =>
      rw [texts, text_stringText]
      rfl
  | cons next more ih =>
    cases fuel with
    | zero => cases hfuel
    | succ fuel =>
      have hnext := ih next (Nat.lt_of_succ_lt_succ hfuel)
      have hstart : ∃ cs, (stringText next).toList ++ moreTexts more rest = '"' :: cs := by
        simp [stringText]
      obtain ⟨cs, hstart⟩ := hstart
      have hmore : moreTexts (next :: more) rest = ',' :: '"' :: cs := by
        rw [← hstart]
        simp [moreTexts]
      rw [hstart] at hnext
      rw [texts, text_stringText, hmore]
      change (texts fuel ('"' :: cs)).map _ = _
      rw [hnext]
      rfl

end Reader

theorem parseTexts_toText (items : List String) :
    parseTexts (strings items).toText = .ok items := by
  have hitems : ∀ items : List String, itemTexts (items.map Json.str) = items.map stringText := by
    intro items
    induction items with
    | nil => rfl
    | cons s more ih => rw [map_cons, itemTexts, ih, toText, map_cons]
  rw [parseTexts, strings, toText, hitems]
  cases items with
  | nil => rfl
  | cons s more =>
    have hchars : ("[" ++ ",".intercalate ((s :: more).map stringText) ++ "]").toList =
        '[' :: ((stringText s).toList ++ moreTexts more []) := by
      rw [← toList_intercalate_stringText]
      simp
    have hstart : ∃ cs, (stringText s).toList ++ moreTexts more [] = '"' :: cs := by
      simp [stringText]
    obtain ⟨cs, hstart⟩ := hstart
    have hlength : more.length < ('"' :: cs).length + 1 := by
      have hmore := length_le_moreTexts more []
      rw [← hstart, length_append]
      omega
    have hread := texts_stringText s more [] hlength
    rw [hstart] at hread
    rw [hchars, hstart]
    change whole (texts _ ('"' :: cs)) = _
    rw [hread]
    rfl

end Json

theorem DataType.ofName?_name (t : DataType) : ofName? t.name = some t := by
  cases t <;> rfl

theorem Json.nat?_optNat (n : Option Nat) : (Json.optNat n).nat? = n := by
  cases n <;> simp [optNat, nat, nat?, Number.toNat?]

namespace Column

theorem str?_toRecord (c : Column) : (c.toRecord.get? "name").bind Json.str? = some c.name ∧
      (c.toRecord.get? "json_type").bind Json.str? = some c.type.name ∧
      (c.toRecord.get? "es_index").bind Json.str? = some c.table := by
  simp [toRecord, mkObj, Json.get?, ofList, get?_insert, Json.str?]

theorem readNesting_toText (arrays : List Path) :
    readNesting (strings arrays).toText = .ok arrays := by
  rw [readNesting, parseTexts_toText]
  rfl

theorem ofRecord_toRecord {c : Column} (hroot : c.nestedPath.getLast? = some Path.root)
    (hpartitions : c.partitions = none) (hdate : c.lastUpdated.isFinite) :
    ofRecord c.toRecord = .ok c := by
  unfold ofRecord
  -- every field of the record is that of the column
  simp only [recordText, readNesting_toText, readPartitions, toRecord, mkObj, Json.get?, ofList,
    foldl_cons, foldl_nil, get?_insert, String.reduceEq, if_true, if_false,
    bind_some, Json.str?, optStr, float, float?, Number.toFloat, hdate,
    hpartitions, map_none, ofName?_name, Json.nat?_optNat,
    bind, Except.bind, pure, Except.pure, hroot, bne_self_eq_false,
    Bool.false_eq_true, getD_some]
  rw [← hpartitions]

end Column

end Snowbank
