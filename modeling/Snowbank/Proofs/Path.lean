import Mathlib.Data.List.Infix
import Snowbank.Service.Session

/-!
# Facts about Paths

A path is text, and the keys it leads through are what it means. The two go
together on canonical paths: there a path is determined by its keys, and lying
beneath another path is having its keys as a prefix.

Not every list of keys is that of a path. A key that is empty is skipped, and
a backslash at the end of a key would escape the dot after it. Keys that are
neither are clean, and a list of clean keys is read back as it was written.
The text of any keys is canonical all the same: where a key escapes the dot
after it, the text is that of fewer keys.

A column name is made of the path as seen from the array around it and of a
type tag, so two columns of a table could have one name if either step lost
something. Neither does: `typed_inj` and `relativeTo_inj`.

## Main definitions

* `CleanKey`: A key that can be read back from a path.
* `Canonical`: The path is the text of its keys.
* `Clean`: The path of clean keys.

## Theorems

* `canonical_ofKeys`: The text of any keys is canonical, unless one is empty.
* `keys_ofKeys_eq_iff`: Which keys are read back.
* `ofKeys_prefix_algebra`: Paths are compared and joined as their keys are.
* `typed_relativeTo_inj`: Different columns of a table have different names.
* `typed_read_back`: Such a name tells its path and type.
* `untyped?_ofKeys_isSome_iff`: Which paths are taken for column names.
-/

namespace Snowbank.Path

open List
open String (toList_append toList_inj toList_ofList)

section

variable {c : Char} {rest cs : List Char}

theorem pieces_cons_of_ne (hdot : c ≠ '.')
    (hrest : c = '\\' → rest.head? ≠ some '.') : pieces (c :: rest) = consHead c (pieces rest) := by
  rw [pieces.eq_4]
  · intro tail hc htail
    rw [htail] at hrest
    exact hrest hc rfl
  · exact fun hc => hdot hc

theorem escapeDots_cons (hdot : c ≠ '.') (rest : List Char) :
    escapeDots (c :: rest) = c :: escapeDots rest := by
  rw [escapeDots.eq_3]
  exact fun hc => hdot hc

theorem head?_escapeDots (cs : List Char) : (escapeDots cs).head? ≠ some '.' := by
  cases cs with
  | nil => simp [escapeDots]
  | cons c rest =>
    by_cases hdot : c = '.'
    · rw [hdot, escapeDots]
      simp
    · rw [escapeDots_cons hdot]
      simpa using hdot

/-- Text that was escaped is read back whole, and what follows is cut as
    before, unless a last backslash escapes the dot that follows. -/
theorem pieces_escapeDots_append (hlast : cs.getLast? = some '\\' → rest.head? ≠ some '.') :
    pieces (escapeDots cs ++ rest) = cs.foldr consHead (pieces rest) := by
  induction cs with
  | nil => rfl
  | cons c tail ih =>
    have htail : tail.getLast? = some '\\' → rest.head? ≠ some '.' := by
      intro h
      refine hlast ?_
      rw [getLast?_cons, h]
      rfl
    by_cases hdot : c = '.'
    · rw [hdot, foldr_cons, ← ih htail]
      rfl
    · rw [escapeDots_cons hdot, cons_append, foldr_cons, ← ih htail]
      refine pieces_cons_of_ne hdot fun hc => ?_
      -- a backslash of the key stands before a dot only at the end
      cases tail with
      | nil => exact hlast (by rw [hc]; rfl)
      | cons d tail =>
        rw [head?_append_of_ne_nil]
        · exact head?_escapeDots _
        · by_cases hd : d = '.'
          · rw [hd]
            exact cons_ne_nil _ _
          · rw [escapeDots_cons hd]
            exact cons_ne_nil _ _

theorem foldr_consHead (cs : List Char) (piece : List Char) (rest : List (List Char)) :
    cs.foldr consHead (piece :: rest) = (cs ++ piece) :: rest := by
  induction cs with
  | nil => rfl
  | cons c tail ih => rw [foldr_cons, ih, consHead, cons_append]

theorem double_escapeDots (cs : List Char) : double (escapeDots cs) = escapeDots (double cs) := by
  cases cs with
  | nil => rfl
  | cons c rest =>
    by_cases hdot : c = '.'
    · rw [hdot]
      rfl
    · by_cases hdollar : c = '$'
      · rw [hdollar]
        rfl
      · rw [escapeDots_cons hdot, double.eq_2, double.eq_2, escapeDots_cons hdot]
        · exact fun _ h => hdollar (List.cons.inj h).1
        · exact fun _ h => hdollar (List.cons.inj h).1

theorem undouble_double (cs : List Char) : undouble (double cs) = cs := by
  unfold double
  split
  · rfl
  next hdollar =>
    rw [undouble.eq_2]
    exact fun rest h => hdollar _ h

theorem double_ne_nil (h : cs ≠ []) : double cs ≠ [] := by
  unfold double
  split
  · exact cons_ne_nil _ _
  · exact h

theorem getLast?_double (cs : List Char) : (double cs).getLast? = cs.getLast? := by
  unfold double
  split
  · rw [getLast?_cons_cons]
  · rfl

end

section Keys

variable {path p : Path} {key : String}

/-- A key that can be read back from a path: it is not empty, and it does not
    escape the dot after it. -/
def CleanKey (key : String) : Prop := key ≠ "" ∧ key.toList.getLast? ≠ some '\\'

instance (key : String) : Decidable (CleanKey key) := inferInstanceAs (Decidable (_ ∧ _))

/-- The path is the text of its keys. -/
def Canonical (path : Path) : Prop := ofKeys path.keys = path

instance (path : Path) : Decidable (Canonical path) := inferInstanceAs (Decidable (_ = _))

/-- The root has no keys; the rule for other paths says the same. -/
theorem keys_eq (path : Path) : path.keys =
    ((pieces path.toList).filter (!·.isEmpty)).map fun piece => String.ofList (undouble piece) := by
  unfold keys
  split
  next h =>
    rcases Bool.or_eq_true_iff.1 h with h | h
    · rw [eq_of_beq h]
      rfl
    · rw [String.isEmpty_iff.1 h]
      rfl
  · rfl

@[simp] theorem keys_root : keys root = [] := rfl

theorem canonical_root : Canonical root := rfl

theorem ne_empty_of_mem_keys (h : key ∈ path.keys) : key ≠ "" := by
  rw [keys_eq] at h
  obtain ⟨piece, hpiece, rfl⟩ := mem_map.1 h
  have hne : piece ≠ [] := by
    have h := (mem_filter.1 hpiece).2
    intro hnil
    rw [hnil] at h
    cases h
  intro hempty
  have hcs : undouble piece = [] := by
    rw [← toList_ofList (l := undouble piece), hempty]
    rfl
  unfold undouble at hcs
  split at hcs
  · cases hcs
  · exact hne hcs

theorem eq_of_keys_eq {q : Path} (hp : p.Canonical) (hq : q.Canonical) (h : p.keys = q.keys) :
    p = q := by
  rw [← hp, ← hq, h]

theorem Canonical.keys_ne_nil (hp : p.Canonical) (hroot : p ≠ root) : p.keys ≠ [] :=
  fun h => hroot (eq_of_keys_eq hp canonical_root h)

@[simp] theorem toList_escapeKey (key : String) :
    (escapeKey key).toList = escapeDots (double key.toList) := by
  rw [escapeKey, toList_ofList, double_escapeDots]

theorem escapeDots_ne_nil {cs : List Char} (h : cs ≠ []) : escapeDots cs ≠ [] := by
  cases cs with
  | nil => exact absurd rfl h
  | cons c rest =>
    by_cases hdot : c = '.'
    · rw [hdot]
      exact cons_ne_nil _ _
    · rw [escapeDots_cons hdot]
      exact cons_ne_nil _ _

theorem toList_ne_nil (h : key ≠ "") : key.toList ≠ [] :=
  fun hnil => h (toList_inj.1 hnil)

theorem escapeKey_ne_empty (h : key ≠ "") : escapeKey key ≠ "" := by
  intro hempty
  refine escapeDots_ne_nil (double_ne_nil (toList_ne_nil h)) ?_
  rw [← toList_escapeKey, hempty]
  rfl

theorem pieces_escapeKey (key : String) : pieces (escapeKey key).toList = [double key.toList] := by
  have h : pieces (escapeDots (double key.toList) ++ []) = _ :=
    pieces_escapeDots_append fun _ => by simp
  rw [append_nil] at h
  rw [toList_escapeKey, h, pieces, foldr_consHead, append_nil]

theorem ofKeys_cons_cons (key next : String) (rest : List String) :
    ofKeys (key :: next :: rest) = escapeKey key ++ "." ++ ofKeys (next :: rest) := by
  simp [ofKeys]

theorem ofKeys_singleton (key : String) : ofKeys [key] = escapeKey key := by
  simp [ofKeys]

theorem ofKeys_append {a b : List String} (ha : a ≠ []) (hb : b ≠ []) :
    ofKeys (a ++ b) = ofKeys a ++ "." ++ ofKeys b := by
  have hab : (a ++ b).isEmpty = false := by simp [ha]
  have hma : a.map escapeKey ≠ [] := by simpa using ha
  have hmb : b.map escapeKey ≠ [] := by simpa using hb
  simp [ofKeys, hab, ha, hb, String.intercalate_append_of_ne_nil hma hmb]

/-- The pieces of the text of clean keys are the keys. The last key may end in
    a backslash: nothing follows it. -/
theorem pieces_ofKeys {keys : List String} (hne : keys ≠ [])
    (hclean : ∀ key ∈ keys.dropLast, key.toList.getLast? ≠ some '\\')
    (hempty : ∀ key ∈ keys, key ≠ "") :
    pieces (ofKeys keys).toList = keys.map fun key => double key.toList := by
  induction keys with
  | nil => exact absurd rfl hne
  | cons key rest ih =>
    cases rest with
    | nil =>
      rw [ofKeys_singleton, pieces_escapeKey]
      rfl
    | cons next rest =>
      have hkey : key ≠ "" := hempty key mem_cons_self
      have hend : key.toList.getLast? ≠ some '\\' := hclean key mem_cons_self
      have hrest := ih (cons_ne_nil _ _) (fun k hk => hclean k (.tail _ hk))
        (fun k hk => hempty k (.tail _ hk))
      rw [ofKeys_cons_cons, toList_append, toList_append, toList_escapeKey,
        append_assoc, pieces_escapeDots_append, map_cons, ← hrest]
      · change List.foldr consHead ([] :: pieces (ofKeys (next :: rest)).toList) _ = _
        rw [foldr_consHead, append_nil]
      · intro hlast
        rw [getLast?_double] at hlast
        exact absurd hlast hend

/-- Keys are read back from the text written for them, if none is empty and
    none escapes the dot after it. -/
theorem keys_of_parted {keys : List String} (hempty : ∀ key ∈ keys, key ≠ "")
    (hlast : ∀ key ∈ keys.dropLast, key.toList.getLast? ≠ some '\\') :
    (ofKeys keys).keys = keys := by
  by_cases hne : keys = []
  · rw [hne]
    rfl
  · rw [keys_eq, pieces_ofKeys hne hlast hempty]
    have hpieces : (keys.map fun key => double key.toList).filter (!·.isEmpty) =
        keys.map fun key => double key.toList := by
      refine filter_eq_self.2 fun piece hpiece => ?_
      obtain ⟨key, hkey, rfl⟩ := mem_map.1 hpiece
      simpa using double_ne_nil (toList_ne_nil (hempty key hkey))
    rw [hpieces, map_map]
    refine (map_congr_left fun key _ => ?_).trans (map_id _)
    simp [undouble_double]

theorem keys_ofKeys {keys : List String} (h : ∀ key ∈ keys, CleanKey key) :
    (ofKeys keys).keys = keys :=
  keys_of_parted (fun k hk => (h k hk).1) fun k hk => (h k (mem_of_mem_dropLast hk)).2

theorem escapeDots_append (as bs : List Char) :
    escapeDots (as ++ bs) = escapeDots as ++ escapeDots bs := by
  induction as with
  | nil => rfl
  | cons c rest ih =>
    by_cases hdot : c = '.'
    · rw [hdot, cons_append, escapeDots, ih]
      rfl
    · rw [cons_append, escapeDots_cons hdot, escapeDots_cons hdot, ih]
      rfl

theorem ofKeys_ne_empty {keys : List String} (h : ∀ key ∈ keys, key ≠ "") : ofKeys keys ≠ "" := by
  cases keys with
  | nil => decide
  | cons key rest =>
    cases rest with
    | nil =>
      rw [ofKeys_singleton]
      exact escapeKey_ne_empty (h key mem_cons_self)
    | cons next rest =>
      intro hempty
      have hlen := congrArg String.length hempty
      rw [ofKeys_cons_cons, String.length_append, String.length_append] at hlen
      have hdot : ".".length = 1 := by decide
      have hnone : "".length = 0 := by decide
      omega

theorem ofKeys_ne_root {keys : List String} (hne : keys ≠ []) (h : ∀ key ∈ keys, key ≠ "") :
    ofKeys keys ≠ root := by
  intro hroot
  cases keys with
  | nil => exact hne rfl
  | cons key rest =>
    cases rest with
    | nil =>
      have hpieces := pieces_escapeKey key
      rw [← ofKeys_singleton, hroot] at hpieces
      -- a lone dot would be two empty pieces
      have htwo : (pieces root.toList).length = 2 := by decide
      rw [hpieces] at htwo
      exact absurd htwo (by simp only [length_singleton]; omega)
    | cons next rest =>
      have hlen := congrArg String.length hroot
      have hrest := ofKeys_ne_empty fun k hk => h k (mem_cons_of_mem key hk)
      have hpos : (ofKeys (next :: rest)).length ≠ 0 := fun hzero =>
        hrest (String.length_eq_zero_iff.1 hzero)
      rw [ofKeys_cons_cons, String.length_append, String.length_append] at hlen
      have hdot : ".".length = 1 := by decide
      have hone : root.length = 1 := by decide
      omega

theorem append_ofKeys {ks ls : List String} (hks : ∀ k ∈ ks, k ≠ "") (hls : ∀ l ∈ ls, l ≠ "") :
    (ofKeys ks).append (ofKeys ls) = ofKeys (ks ++ ls) := by
  have hempty : ∀ {keys : List String}, (∀ k ∈ keys, k ≠ "") → (ofKeys keys).isEmpty = false :=
    fun h => by simpa using ofKeys_ne_empty h
  have hroot : ∀ {keys : List String}, keys ≠ [] → (∀ k ∈ keys, k ≠ "") →
      (ofKeys keys == ".") = false := fun hne h => beq_eq_false_iff_ne.2 (ofKeys_ne_root hne h)
  by_cases hk : ks = []
  · rw [hk, nil_append, append, hempty hls]
    rfl
  · rw [append, hroot hk hks, hempty hks]
    by_cases hl : ls = []
    · rw [hl, append_nil]
      rfl
    · rw [hroot hl hls, hempty hls, ofKeys_append hk hl]
      rfl

theorem append_escapeKey {path : Path} (hpath : path.Canonical) {key : String} (hkey : key ≠ "") :
    path.append (escapeKey key) = ofKeys (path.keys ++ [key]) := by
  have hkeys : ∀ k ∈ path.keys, k ≠ "" := fun _ hk => ne_empty_of_mem_keys hk
  have h := append_ofKeys hkeys (forall_mem_singleton.2 hkey)
  rwa [hpath, ofKeys_singleton] at h

/-- Only what a text begins with is doubled. -/
theorem double_append {c : Char} (hc : c ≠ '$') (front rest : List Char) :
    double (front ++ c :: rest) = double front ++ c :: rest := by
  cases front with
  | nil =>
    rw [nil_append, double.eq_2]
    · rfl
    · exact fun _ h => hc (List.cons.inj h).1
  | cons d front =>
    by_cases hd : d = '$'
    · rw [hd]
      rfl
    · rw [cons_append, double.eq_2, double.eq_2]
      · rfl
      · exact fun _ h => hd (List.cons.inj h).1
      · exact fun _ h => hd (List.cons.inj h).1

/-- A key that escapes the dot after it is one key with the next. -/
theorem ofKeys_merge (front : List Char) (next : String) (rest : List String) :
    ofKeys (String.ofList (front ++ '.' :: double next.toList) :: rest) =
      ofKeys (String.ofList (front ++ ['\\']) :: next :: rest) := by
  have hkey : escapeKey (String.ofList (front ++ '.' :: double next.toList)) =
      escapeKey (String.ofList (front ++ ['\\'])) ++ "." ++ escapeKey next := by
    rw [← toList_inj, toList_append, toList_append, toList_escapeKey, toList_escapeKey,
      toList_escapeKey, toList_ofList, toList_ofList, double_append (by decide),
      double_append (by decide), escapeDots_append, escapeDots_append, append_assoc, append_assoc]
    rfl
  cases rest with
  | nil => rw [ofKeys_singleton, ofKeys_cons_cons, ofKeys_singleton, hkey]
  | cons other rest =>
    rw [ofKeys_cons_cons, ofKeys_cons_cons, ofKeys_cons_cons, hkey]
    simp only [String.append_assoc]

/-- The text of keys is that of keys which are read back: a key that escapes
    the dot after it is taken together with the next. -/
theorem exists_parted {keys : List String} (hempty : ∀ key ∈ keys, key ≠ "") :
    ∃ parted, ofKeys parted = ofKeys keys ∧ (∀ key ∈ parted, key ≠ "") ∧
      ∀ key ∈ parted.dropLast, key.toList.getLast? ≠ some '\\' := by
  induction keys with
  | nil => exact ⟨[], rfl, hempty, forall_mem_nil _⟩
  | cons key rest ih =>
    have hothers : ∀ k ∈ rest, k ≠ "" := fun k hk => hempty k (.tail _ hk)
    cases rest with
    | nil => exact ⟨[key], rfl, hempty, forall_mem_nil _⟩
    | cons second rest =>
      obtain ⟨parted, htext, hne, hends⟩ := ih hothers
      obtain ⟨next, others, rfl⟩ : ∃ next others, parted = next :: others := by
        refine exists_cons_of_ne_nil fun hnil => ofKeys_ne_root (cons_ne_nil _ _) hothers ?_
        rw [← htext, hnil]
        rfl
      have htexts : ofKeys (key :: next :: others) = ofKeys (key :: second :: rest) := by
        rw [ofKeys_cons_cons, ofKeys_cons_cons, htext]
      by_cases hlast : key.toList.getLast? = some '\\'
      · obtain ⟨front, hfront⟩ := getLast?_eq_some_iff.1 hlast
        have hmerge := ofKeys_merge front next others
        rw [← hfront, String.ofList_toList] at hmerge
        refine ⟨_, hmerge.trans htexts, forall_mem_cons.2 ⟨?_, fun k hk => hne k (.tail _ hk)⟩, ?_⟩
        · intro hnone
          have hnil := congrArg String.toList hnone
          rw [toList_ofList] at hnil
          exact append_ne_nil_of_right_ne_nil _ (cons_ne_nil _ _) hnil
        · cases others with
          | nil => exact forall_mem_nil _
          | cons other others =>
            refine forall_mem_cons.2 ⟨?_, fun k hk => hends k (.tail _ hk)⟩
            -- the merged key ends as the next one did
            have hnext : next.toList.getLast? ≠ some '\\' := hends next mem_cons_self
            rw [toList_ofList, getLast?_append_of_ne_nil _ (cons_ne_nil _ _), getLast?_cons,
              getLast?_double]
            cases hend : next.toList.getLast? with
            | none => decide
            | some c => rwa [hend] at hnext
      · exact ⟨_, htexts, forall_mem_cons.2 ⟨hempty key mem_cons_self, hne⟩,
          forall_mem_cons.2 ⟨hlast, hends⟩⟩

/-- Those are the only lists of keys that are read back: a key that escapes the
    dot after it is read with the next as one. -/
theorem keys_ofKeys_eq_iff (keys : List String) : (ofKeys keys).keys = keys ↔
    (∀ key ∈ keys, key ≠ "") ∧ ∀ key ∈ keys.dropLast, key.toList.getLast? ≠ some '\\' := by
  refine ⟨fun h => ?_, fun h => keys_of_parted h.1 h.2⟩
  have hempty : ∀ key ∈ keys, key ≠ "" := fun key hkey => ne_empty_of_mem_keys (h.symm ▸ hkey)
  obtain ⟨parted, htext, hne, hends⟩ := exists_parted hempty
  have hsame : parted = keys := by rw [← keys_of_parted hne hends, htext, h]
  exact ⟨hempty, hsame ▸ hends⟩

theorem canonical_ofKeys {keys : List String} (hempty : ∀ key ∈ keys, key ≠ "") :
    (ofKeys keys).Canonical := by
  obtain ⟨parted, htext, hne, hends⟩ := exists_parted hempty
  unfold Canonical
  rw [← htext, keys_of_parted hne hends]

theorem Canonical.append_empty (hpath : path.Canonical) : path.append (escapeKey "") = path := by
  have hnone : escapeKey "" = "" := rfl
  have hempty : path ≠ "" := fun h =>
    ofKeys_ne_empty (fun _ => ne_empty_of_mem_keys) (hpath.trans h)
  rw [hnone, append]
  split
  next h =>
    rcases Bool.or_eq_true_iff.1 h with h | h
    · exact (eq_of_beq h).symm
    · exact absurd (String.isEmpty_iff.1 h) hempty
  · rfl

theorem Canonical.child (hpath : path.Canonical) (key : String) :
    (path.append (escapeKey key)).Canonical := by
  by_cases hkey : key = ""
  · rwa [hkey, hpath.append_empty]
  · rw [append_escapeKey hpath hkey]
    refine canonical_ofKeys fun k hk => ?_
    rcases mem_append.1 hk with hk | hk
    · exact ne_empty_of_mem_keys hk
    · exact mem_singleton.1 hk ▸ hkey

theorem Canonical.child_eq_root (hpath : path.Canonical) (h : path.append (escapeKey key) = root) :
    path = root ∧ key = "" := by
  by_cases hkey : key = ""
  · rw [hkey, hpath.append_empty] at h
    exact ⟨h, hkey⟩
  · rw [append_escapeKey hpath hkey] at h
    refine absurd h (ofKeys_ne_root (by simp) fun k hk => ?_)
    rcases mem_append.1 hk with hk | hk
    · exact ne_empty_of_mem_keys hk
    · exact mem_singleton.1 hk ▸ hkey

/-- The path of clean keys. -/
structure Clean (path : Path) : Prop where
  canonical : path.Canonical
  keys : ∀ key ∈ path.keys, CleanKey key

theorem clean_root : Clean root := ⟨canonical_root, forall_mem_nil _⟩

theorem Clean.keys_child (hpath : path.Clean) (hkey : CleanKey key) :
    (path.append (escapeKey key)).keys = path.keys ++ [key] := by
  rw [append_escapeKey hpath.canonical hkey.1]
  refine keys_ofKeys fun k hk => ?_
  rcases mem_append.1 hk with hk | hk
  · exact hpath.keys k hk
  · exact mem_singleton.1 hk ▸ hkey

theorem Clean.child (hpath : path.Clean) (hkey : CleanKey key) :
    (path.append (escapeKey key)).Clean := by
  refine ⟨hpath.canonical.child key, fun k hk => ?_⟩
  rw [hpath.keys_child hkey] at hk
  rcases mem_append.1 hk with hk | hk
  · exact hpath.keys k hk
  · exact mem_singleton.1 hk ▸ hkey

end Keys

section

variable {path a b : Path}

/-- A path lies beneath another if it has its keys in front. -/
theorem isUnder_iff {above : Path} : path.isUnder above ↔ above.keys <+: path.keys := by
  rw [isUnder, Bool.or_eq_true_iff, isPrefixOf_iff_prefix]
  refine ⟨fun h => h.elim (fun hdot => ?_) id, .inr⟩
  rw [eq_of_beq hdot]
  exact nil_prefix

theorem isUnder_root (path : Path) : path.isUnder root := isUnder_iff.2 nil_prefix

theorem isUnder_refl (path : Path) : path.isUnder path := isUnder_iff.2 (prefix_refl _)

theorem isUnder_trans {c : Path} (hab : a.isUnder b) (hbc : b.isUnder c) : a.isUnder c :=
  isUnder_iff.2 ((isUnder_iff.1 hbc).trans (isUnder_iff.1 hab))

theorem isUnder_antisymm (ha : a.Canonical) (hb : b.Canonical)
    (hab : a.isUnder b) (hba : b.isUnder a) : a = b :=
  eq_of_keys_eq ha hb ((isUnder_iff.1 hba).eq_of_length_le (isUnder_iff.1 hab).length_le)

/-- Of two paths above one path, the one that is not shallower lies beneath the other. -/
theorem isUnder_of_depth_le (ha : path.isUnder a)
    (hb : path.isUnder b) (hdepth : b.depth ≤ a.depth) : a.isUnder b :=
  isUnder_iff.2 (prefix_of_prefix_length_le (isUnder_iff.1 hb) (isUnder_iff.1 ha) hdepth)

theorem depth_le_of_isUnder (h : a.isUnder b) : b.depth ≤ a.depth :=
  (isUnder_iff.1 h).length_le

theorem depth_lt_of_isUnder (ha : a.Canonical) (hb : b.Canonical) (hne : a ≠ b)
    (h : a.isUnder b) : b.depth < a.depth := by
  refine lt_of_le_of_ne (depth_le_of_isUnder h) fun heq => hne ?_
  exact (eq_of_keys_eq hb ha ((isUnder_iff.1 h).eq_of_length heq)).symm

theorem eq_of_depth_eq (hca : a.Canonical) (hcb : b.Canonical)
    (ha : path.isUnder a) (hb : path.isUnder b) (hdepth : a.depth = b.depth) : a = b :=
  isUnder_antisymm hca hcb (isUnder_of_depth_le ha hb hdepth.ge)
    (isUnder_of_depth_le hb ha hdepth.le)

end

section

variable {path above p q : Path} {t u : DataType}

theorem relativeTo_eq (h : path.isUnder above) :
    path.relativeTo above = ofKeys (path.keys.drop above.keys.length) := by
  rw [relativeTo, if_pos h]

theorem append_relativeTo {path above : Path} (hpath : path.Canonical) (habove : above.Canonical)
    (h : path.isUnder above) : above.append (path.relativeTo above) = path := by
  obtain ⟨rest, hrest⟩ := isUnder_iff.1 h
  have hkeys : ∀ k ∈ above.keys ++ rest, k ≠ "" := fun k hk => ne_empty_of_mem_keys (hrest ▸ hk)
  have happend := append_ofKeys (fun k hk => hkeys k (mem_append_left _ hk))
    fun k hk => hkeys k (mem_append_right _ hk)
  have hdrop : rest = path.keys.drop above.keys.length := by rw [← hrest, drop_left]
  rwa [habove, hrest, hpath, hdrop, ← relativeTo_eq h] at happend

/-- Paths of clean keys are joined, compared and taken apart as their keys are. -/
theorem ofKeys_prefix_algebra {ks ls : List String} (hks : ∀ k ∈ ks, CleanKey k)
    (hls : ∀ l ∈ ls, CleanKey l) :
    (ofKeys ks).append (ofKeys ls) = ofKeys (ks ++ ls) ∧
      ((ofKeys ks).isUnder (ofKeys ls) ↔ ls <+: ks) ∧
      ((ofKeys ks).append (ofKeys ls)).relativeTo (ofKeys ks) = ofKeys ls := by
  have happend := append_ofKeys (fun k hk => (hks k hk).1) fun l hl => (hls l hl).1
  have hkeys : (ofKeys (ks ++ ls)).keys = ks ++ ls :=
    keys_ofKeys fun key hkey => (mem_append.mp hkey).elim (hks key) (hls key)
  refine ⟨happend, ?_, ?_⟩
  · rw [isUnder_iff, keys_ofKeys hks, keys_ofKeys hls]
  · have hunder : (ofKeys (ks ++ ls)).isUnder (ofKeys ks) := by
      rw [isUnder_iff, hkeys, keys_ofKeys hks]
      exact prefix_append ..
    rw [happend, relativeTo_eq hunder, hkeys, keys_ofKeys hks, drop_left]

theorem ofKeys_prefix_algebra_escaped :
    (ofKeys ["$n", "a.b"]).append (ofKeys ["\\c", "."]) = ofKeys ["$n", "a.b", "\\c", "."] ∧
      ¬ (ofKeys ["$n", "a.b"]).isUnder (ofKeys ["\\c", "."]) ∧
      ((ofKeys ["$n", "a.b"]).append (ofKeys ["\\c", "."])).relativeTo (ofKeys ["$n", "a.b"]) =
        ofKeys ["\\c", "."] :=
  have h := ofKeys_prefix_algebra (show ∀ k ∈ ["$n", "a.b"], CleanKey k by decide)
    (show ∀ l ∈ ["\\c", "."], CleanKey l by decide)
  ⟨h.1, fun hunder => absurd (h.2.1.mp hunder) (by decide), h.2.2⟩

theorem relativeTo_ne_empty (h : path.isUnder above) : path.relativeTo above ≠ "" := by
  rw [relativeTo_eq h]
  exact ofKeys_ne_empty fun k hk => ne_empty_of_mem_keys (mem_of_mem_drop hk)

theorem relativeTo_inj (hp : p.Canonical) (hq : q.Canonical)
    (hpa : p.isUnder above) (hqa : q.isUnder above)
    (h : p.relativeTo above = q.relativeTo above) : p = q := by
  obtain ⟨a, ha⟩ := isUnder_iff.1 hpa
  obtain ⟨b, hb⟩ := isUnder_iff.1 hqa
  rw [relativeTo_eq hpa, relativeTo_eq hqa, ← ha, ← hb, drop_left, drop_left] at h
  have hane : ∀ key ∈ a, key ≠ "" := fun key hkey =>
    ne_empty_of_mem_keys (ha ▸ mem_append_right _ hkey)
  have hbne : ∀ key ∈ b, key ≠ "" := fun key hkey =>
    ne_empty_of_mem_keys (hb ▸ mem_append_right _ hkey)
  -- no keys give the root, so neither remainder is empty alone
  have hnil : a = [] ↔ b = [] := by
    constructor
    · intro hanil
      by_contra hbnil
      exact ofKeys_ne_root hbnil hbne (h ▸ hanil ▸ rfl)
    · intro hbnil
      by_contra hanil
      exact ofKeys_ne_root hanil hane (h ▸ hbnil ▸ rfl)
  rw [← hp, ← hq, ← ha, ← hb]
  by_cases ha0 : a = []
  · rw [ha0, hnil.1 ha0]
  · by_cases habove : above.keys = []
    · rw [habove, nil_append, nil_append, h]
    · rw [ofKeys_append habove ha0, ofKeys_append habove (mt hnil.2 ha0), h]

theorem storage_eq_of_tag_eq (h : t.storage.tag = u.storage.tag) : t.storage = u.storage := by
  revert h
  cases t <;> cases u <;> decide

theorem toList_typed (p : Path) (t : DataType) : (p.typed t).toList =
    (if p == "." || p.isEmpty then [] else p.toList) ++ ['.', '$', t.storage.tag] := by
  unfold typed
  split
  · rw [toList_ofList, nil_append]
  · rw [toList_append, toList_ofList]

/-- A column name tells its path and its stored type. -/
theorem typed_inj (hp : p ≠ "") (hq : q ≠ "")
    (h : p.typed t = q.typed u) : p = q ∧ t.storage = u.storage := by
  have hlist := congrArg String.toList h
  rw [toList_typed, toList_typed] at hlist
  have hparts := append_inj_right' hlist rfl
  have hfront := append_inj_left' hlist rfl
  have htag : t.storage.tag = u.storage.tag := by simpa using hparts
  refine ⟨?_, storage_eq_of_tag_eq htag⟩
  have hpe : p.isEmpty = false := by simpa using hp
  have hqe : q.isEmpty = false := by simpa using hq
  rw [hpe, hqe, Bool.or_false, Bool.or_false] at hfront
  by_cases hpdot : p = "." <;> by_cases hqdot : q = "."
  · rw [hpdot, hqdot]
  · rw [if_pos (by simpa using hpdot), if_neg (by simpa using hqdot)] at hfront
    exact absurd hfront.symm (toList_ne_nil hq)
  · rw [if_neg (by simpa using hpdot), if_pos (by simpa using hqdot)] at hfront
    exact absurd hfront (toList_ne_nil hp)
  · rw [if_neg (by simpa using hpdot), if_neg (by simpa using hqdot)] at hfront
    exact toList_inj.1 hfront

theorem typed_relativeTo_inj (hp : p.Canonical)
    (hq : q.Canonical) (hpa : p.isUnder above) (hqa : q.isUnder above)
    (h : (p.relativeTo above).typed t = (q.relativeTo above).typed u) :
    p = q ∧ t.storage = u.storage := by
  obtain ⟨hrelative, htype⟩ := typed_inj (relativeTo_ne_empty hpa) (relativeTo_ne_empty hqa) h
  exact ⟨relativeTo_inj hp hq hpa hqa hrelative, htype⟩

theorem getLast?_escapeDots (cs : List Char) : (escapeDots cs).getLast? = cs.getLast? := by
  induction cs with
  | nil => rfl
  | cons c rest ih =>
    by_cases hrest : rest = []
    · by_cases hdot : c = '.'
      · rw [hdot, hrest]
        rfl
      · rw [escapeDots_cons hdot, hrest]
        rfl
    · have hne := escapeDots_ne_nil hrest
      by_cases hdot : c = '.'
      · rw [hdot, escapeDots, getLast?_cons_cons, getLast?_cons_of_ne_nil hne,
          getLast?_cons_of_ne_nil hrest, ih]
      · rw [escapeDots_cons hdot, getLast?_cons_of_ne_nil hne, getLast?_cons_of_ne_nil hrest, ih]

theorem getLast?_ofKeys {keys : List String} (h : ∀ key ∈ keys, CleanKey key) :
    (ofKeys keys).toList.getLast? ≠ some '\\' := by
  rcases eq_nil_or_concat' keys with rfl | ⟨front, key, rfl⟩
  · decide
  · have hkey := h key (mem_append_right _ mem_cons_self)
    have hlast : (escapeKey key).toList.getLast? = key.toList.getLast? := by
      rw [toList_escapeKey, getLast?_escapeDots, getLast?_double]
    by_cases hfront : front = []
    · rw [hfront, nil_append, ofKeys_singleton, hlast]
      exact hkey.2
    · have hne : (escapeKey key).toList ≠ [] := toList_ne_nil (escapeKey_ne_empty hkey.1)
      rw [ofKeys_append hfront (cons_ne_nil _ _), ofKeys_singleton, toList_append,
        getLast?_append_of_ne_nil _ hne, hlast]
      exact hkey.2

theorem ofTag?_tag (t : DataType) : DataType.ofTag? t.storage.tag = some t.storage := by
  cases t <;> rfl

/-- How many backslashes end the text of a path. -/
def slashes (path : Path) : Nat := (path.toList.reverse.takeWhile (· == '\\')).length

theorem slashes_eq_zero (h : p.toList.getLast? ≠ some '\\') : p.slashes = 0 := by
  rw [← head?_reverse] at h
  unfold slashes
  cases hlist : p.toList.reverse with
  | nil => rfl
  | cons c rest =>
    rw [takeWhile_cons_of_neg, length_nil]
    intro hc
    rw [hlist, head?_cons, eq_of_beq hc] at h
    exact h rfl

/-- A column name is read back, unless its path escapes the dot before the tag. -/
theorem untyped?_typed (hp : p ≠ "") (hslashes : p.slashes % 2 ≠ 1)
    (t : DataType) : untyped? (p.typed t) = some (p, t.storage) := by
  have hpe : p.isEmpty = false := by simpa using hp
  unfold untyped?
  rw [toList_typed, hpe, Bool.or_false, reverse_append]
  by_cases hroot : p = "."
  · rw [if_pos (by simpa using hroot), hroot]
    simp only [reverse_cons, reverse_nil, nil_append, cons_append, ofTag?_tag]
    rfl
  · have hne : p.toList.reverse ≠ [] := by
      rw [Ne, reverse_eq_nil_iff]
      exact toList_ne_nil hp
    have hsep : (p.slashes % 2 == 1) = false := beq_eq_false_iff_ne.2 hslashes
    rw [if_neg (by simpa using hroot)]
    simp only [reverse_cons, reverse_nil, nil_append, cons_append, ofTag?_tag,
      ← slashes.eq_1, hsep, isEmpty_eq_false_iff.2 hne, reverse_reverse,
      String.ofList_toList]
    rfl

/-- Such names tell their path and stored type, so they differ where those do. -/
theorem typed_read_back (hp : p ≠ "") (hslashes : p.slashes % 2 ≠ 1) (t : DataType) :
    untyped? (p.typed t) = some (p, t.storage) ∧
      ∀ (q : Path) (u : DataType), q ≠ "" → q.slashes % 2 ≠ 1 →
        p ≠ q ∨ t.storage ≠ u.storage → p.typed t ≠ q.typed u := by
  have hread := untyped?_typed hp hslashes t
  refine ⟨hread, fun q u hq hsep hdiffer hsame => ?_⟩
  rw [hsame, untyped?_typed hq hsep] at hread
  rw [Option.some.injEq, Prod.mk.injEq] at hread
  exact hdiffer.elim (· hread.1.symm) (· hread.2.symm)

theorem typed_read_back_backslashes :
    untyped? (typed "a.$s\\\\" .integer) = some ("a.$s\\\\", .number) ∧
      typed "a.$s\\\\" .integer ≠ typed "a\\.$s\\\\" .number :=
  have h := typed_read_back (p := "a.$s\\\\") (by decide) (by decide) .integer
  ⟨h.1, h.2 "a\\.$s\\\\" .number (by decide) (by decide) (.inl (by decide))⟩

section

variable {pre cs back : List Char} {c : Char} {key : String}

theorem tag_of_ofTag? {tag : Char} (h : DataType.ofTag? tag = some t) : tag = t.storage.tag := by
  unfold DataType.ofTag? at h
  split at h <;> cases h <;> rfl

theorem slashes_concat (cs : List Char) (c : Char) : slashes (String.ofList (cs ++ [c])) =
    if c = '\\' then slashes (String.ofList cs) + 1 else 0 := by
  simp only [slashes, String.toList_ofList, reverse_append, reverse_singleton, singleton_append,
    takeWhile_cons, beq_iff_eq]
  split <;> rfl

/-- Escaping dots adds no backslash at the end of a text. -/
theorem slashes_append_escapeDots (hpre : pre.getLast? ≠ some '\\') (cs : List Char) :
    slashes (String.ofList (pre ++ escapeDots cs)) = slashes (String.ofList cs) := by
  induction cs using reverseRecOn with
  | nil =>
    rw [escapeDots, append_nil, slashes_eq_zero (by rwa [String.toList_ofList])]
    rfl
  | append_singleton front c ih =>
    rw [escapeDots_append, ← append_assoc, slashes_concat front c]
    by_cases hdot : c = '.'
    · have hescaped : escapeDots ['.'] = ['\\'] ++ ['.'] := rfl
      rw [hdot, hescaped, ← append_assoc, slashes_concat]
      rfl
    · rw [escapeDots_cons hdot, escapeDots, slashes_concat, ih]

/-- A column name ends in a type tag behind a dot that is not escaped. -/
theorem untyped?_isSome_iff {name : String} : (untyped? name).isSome ↔
    ∃ (back : List Char) (t : DataType), name.toList = back ++ ['.', '$', t.storage.tag] ∧
      slashes (String.ofList back) % 2 ≠ 1 := by
  constructor
  · intro h
    unfold untyped? at h
    split at h
    next tag back hname =>
      split at h
      next => cases h
      next t htag =>
        refine ⟨back.reverse, t, ?_, fun hodd => ?_⟩
        · rw [← reverse_inj, hname, tag_of_ofTag? htag]
          simp
        · rw [slashes, String.toList_ofList, reverse_reverse] at hodd
          rw [hodd] at h
          cases h
    next => cases h
  · rintro ⟨back, t, hname, heven⟩
    have heven : ((back.reverse.takeWhile (· == '\\')).length % 2 == 1) = false := by
      rw [slashes, String.toList_ofList] at heven
      exact beq_eq_false_iff_ne.2 heven
    unfold untyped?
    rw [hname, reverse_append]
    simp only [reverse_cons, reverse_nil, nil_append, cons_append, ofTag?_tag, heven,
      Bool.false_eq_true, if_false]
    split <;> rfl

/-- The text of keys is that of the last one behind a dot, or behind the dollar sign that doubles
    its first. -/
theorem toList_ofKeys_concat (front : List String) (key : String) : ∃ pre,
    (ofKeys (front ++ [key])).toList = pre ++ escapeDots key.toList ∧
      if key.toList.head? = some '$' then pre.getLast? = some '$'
      else pre.getLast? = none ∨ pre.getLast? = some '.' := by
  obtain ⟨before, hbefore, hlast⟩ : ∃ before : List Char, (ofKeys (front ++ [key])).toList =
      before ++ (escapeKey key).toList ∧ (before.getLast? = none ∨ before.getLast? = some '.') := by
    by_cases hfront : front = []
    · exact ⟨[], by rw [hfront, nil_append, ofKeys_singleton, nil_append], .inl rfl⟩
    · refine ⟨(ofKeys front).toList ++ ['.'], ?_, .inr getLast?_concat⟩
      rw [ofKeys_append hfront (cons_ne_nil _ _), ofKeys_singleton, String.toList_append,
        String.toList_append]
      rfl
  rw [hbefore, toList_escapeKey]
  unfold double
  split
  next rest hkey =>
    refine ⟨before ++ ['$'], ?_, ?_⟩
    · rw [hkey, append_assoc]
      rfl
    · rw [hkey, head?_cons, if_pos rfl, getLast?_concat]
  next hkey =>
    refine ⟨before, rfl, ?_⟩
    rw [if_neg]
    · exact hlast
    · intro hhead
      obtain ⟨rest, hrest⟩ := head?_eq_some_iff.1 hhead
      exact hkey rest hrest

/-- The last character of an escaped text, other than a dot. -/
theorem eq_concat_of_escapeDots (hc : c ≠ '.') (hpre : cs = [] → pre.getLast? ≠ some c)
    (h : pre ++ escapeDots cs = back ++ [c]) :
    ∃ front, cs = front ++ [c] ∧ pre ++ escapeDots front = back := by
  rcases eq_nil_or_concat' cs with rfl | ⟨front, d, rfl⟩
  · rw [escapeDots, append_nil] at h
    exact absurd (h ▸ getLast?_concat) (hpre rfl)
  · rw [escapeDots_append, ← append_assoc] at h
    by_cases hdot : d = '.'
    · have hescaped : escapeDots ['.'] = ['\\'] ++ ['.'] := rfl
      rw [hdot, hescaped, ← append_assoc] at h
      exact absurd (singleton_inj.1 (append_inj_right' h rfl)).symm hc
    · rw [escapeDots_cons hdot, escapeDots] at h
      obtain ⟨hback, hlast⟩ := append_inj' h rfl
      exact ⟨front, by rw [hlast], hback⟩

theorem tag_ne (t : DataType) : t.storage.tag ≠ '.' ∧ t.storage.tag ≠ '$' := by
  cases t <;> decide

theorem toList_typed_of_odd (hodd : p.slashes % 2 = 1) (t : DataType) :
    (p.typed t).toList = p.toList ++ ['.', '$', t.storage.tag] := by
  rw [toList_typed, if_neg]
  intro hroot
  rcases Bool.or_eq_true_iff.1 hroot with h | h
  · rw [eq_of_beq h] at hodd
    cases hodd
  · rw [String.isEmpty_iff.1 h] at hodd
    cases hodd

/-- The text of keys is taken for a column name exactly when the last key is one whose last dot is
    escaped: in the text one more backslash stands before it. -/
theorem untyped?_ofKeys_isSome_iff (keys : List String) : (untyped? (ofKeys keys)).isSome ↔
    ∃ (front : Path) (t : DataType), keys.getLast? = some (front.typed t) ∧
      front.slashes % 2 = 1 := by
  rcases eq_nil_or_concat' keys with rfl | ⟨keys, key, rfl⟩
  · simp only [getLast?_nil, reduceCtorEq, false_and, exists_false]
    decide
  obtain ⟨pre, htext, hpre⟩ := toList_ofKeys_concat keys key
  have hslash : pre.getLast? ≠ some '\\' := by
    split at hpre
    · rw [hpre]
      decide
    · rcases hpre with h | h <;> rw [h] <;> decide
  -- before a key without a dollar sign in front there is a dot, if anything
  have hdot : ∀ {c}, key.toList.head? ≠ some '$' → pre.getLast? = some c → c = '.' := by
    intro c hhead hc
    rw [if_neg hhead, hc] at hpre
    simpa using hpre
  simp only [untyped?_isSome_iff, htext, getLast?_concat, Option.some.injEq]
  constructor
  · rintro ⟨back, t, hname, heven⟩
    have htext : pre ++ escapeDots key.toList = back ++ ['.'] ++ ['$'] ++ [t.storage.tag] := by
      simpa using hname
    obtain ⟨untagged, hkey, hdollar⟩ := eq_concat_of_escapeDots (tag_ne t).1
      (fun hnil hlast => (tag_ne t).1 (hdot (by simp [hnil]) hlast)) htext
    obtain ⟨stem, rfl, hstem⟩ := eq_concat_of_escapeDots (by decide)
      (fun hnil hlast => absurd (hdot (by simpa [hkey, hnil] using (tag_ne t).2) hlast) (by decide))
      hdollar
    rcases eq_nil_or_concat' stem with rfl | ⟨front, c, rfl⟩
    · -- a dollar sign in front would have been doubled
      rw [hkey] at hpre
      rw [escapeDots, append_nil] at hstem
      simp [hstem] at hpre
    rw [escapeDots_append, ← append_assoc] at hstem
    by_cases hc : c = '.'
    · have hescaped : escapeDots ['.'] = ['\\'] ++ ['.'] := rfl
      rw [hc, hescaped, ← append_assoc] at hstem
      rw [← append_inj_left' hstem rfl, slashes_concat, if_pos rfl,
        slashes_append_escapeDots hslash] at heven
      have hodd : slashes (String.ofList front) % 2 = 1 := by omega
      refine ⟨String.ofList front, t, String.toList_inj.mp ?_, hodd⟩
      rw [toList_typed_of_odd hodd, hkey, hc, String.toList_ofList]
      simp
    · rw [escapeDots_cons hc, escapeDots] at hstem
      exact absurd (singleton_inj.mp (append_inj_right' hstem rfl)) hc
  · rintro ⟨front, t, rfl, hodd⟩
    refine ⟨pre ++ escapeDots front.toList ++ ['\\'], t, ?_, ?_⟩
    · have htag : escapeDots [t.storage.tag] = [t.storage.tag] := by
        rw [escapeDots_cons (tag_ne t).1, escapeDots]
      have hescaped : escapeDots ['.', '$', t.storage.tag] =
          ['\\', '.', '$'] ++ escapeDots [t.storage.tag] := rfl
      rw [toList_typed_of_odd hodd, escapeDots_append, hescaped, htag]
      simp
    · rw [slashes_concat, if_pos rfl, slashes_append_escapeDots hslash, String.ofList_toList]
      omega

end

section

variable {p above : Path} (hp : p.Clean) (h : p.isUnder above)

include hp h

theorem Clean.keys_relativeTo : (p.relativeTo above).keys = p.keys.drop above.depth := by
  rw [relativeTo_eq h]
  exact keys_ofKeys fun key hkey => hp.keys key (mem_of_mem_drop hkey)

/-- The name of a column tells where it is, seen from the array around it. -/
theorem Clean.untyped?_relativeTo (t : DataType) :
    untyped? ((p.relativeTo above).typed t) = some (p.relativeTo above, t.storage) := by
  have hlast : (p.relativeTo above).toList.getLast? ≠ some '\\' := by
    rw [relativeTo_eq h]
    exact getLast?_ofKeys fun key hkey => hp.keys key (mem_of_mem_drop hkey)
  refine untyped?_typed (relativeTo_ne_empty h) ?_ t
  rw [slashes_eq_zero hlast]
  decide

end

end

end Snowbank.Path
