import Snowbank.Proofs.Number.Double
import Snowbank.Proofs.Ordered

/-!
# Definite Values

A JSON value is definite when it equals itself. Every value that is read from
text is; the one thing that is not is a NaN, which no text stands for.

Rewriting compares trees, and what it does with a tree that differs from
itself is of no interest. So it matters that nothing indefinite is ever
computed: a number that is not finite becomes null.

## Main definitions

* `Definite`: The value equals itself.

## Theorems

* `definite_arr_iff`: An array is definite if its items are.
* `definite_ofFloat`: A number that is computed is definite.
-/

namespace Snowbank

open List Ordered DataType

namespace Json

variable {key : String} {fields : Fields} {v : Json}

/-- The value equals itself, which is to say that it holds no NaN. -/
def Definite (v : Json) : Prop := (v == v)

theorem definite_null : Definite .null := rfl

theorem definite_bool (b : Bool) : Definite (.bool b) := by
  cases b <;> rfl

theorem definite_str (s : String) : Definite (.str s) := beq_self_eq_true s

theorem definite_int (n : Int) : Definite (.int n) := beq_self_eq_true n

theorem definite_nat (n : Nat) : Definite (.nat n) := beq_self_eq_true (n : Int)

theorem definite_optStr (s : Option String) : Definite (.optStr s) := by
  cases s with
  | none => exact definite_null
  | some t => exact definite_str t

theorem definite_arr_iff (items : List Json) : Definite (.arr items) ↔ ∀ v ∈ items, Definite v := by
  change beqItems items items ↔ _
  induction items with
  | nil => simp [beqItems]
  | cons v rest ih =>
    rw [beqItems, Bool.and_eq_true, ih, forall_mem_cons]
    rfl

theorem definite_obj_iff (fields : Fields) :
    Definite (.obj fields) ↔ ∀ f ∈ fields, Definite f.2 := by
  change beqFields fields fields ↔ _
  induction fields with
  | nil => simp [beqFields]
  | cons f rest ih =>
    rw [beqFields, Bool.and_eq_true, Bool.and_eq_true, ih, forall_mem_cons, beq_self_eq_true]
    simp only [true_and]
    rfl

theorem definite_strings (texts : List String) : Definite (.strings texts) := by
  refine (definite_arr_iff _).2 (fun v hv => ?_)
  obtain ⟨s, -, rfl⟩ := mem_map.1 hv
  exact definite_str s

theorem definite_float (x : Float) : Definite (.float x) := by
  unfold float
  by_cases h : x.isFinite
  · rw [if_pos h]
    exact Double.beq_self x (Double.isNaN_of_isFinite h)
  · rw [if_neg h]
    exact definite_null

theorem definite_ofFloat (x : Float) : Definite (.ofFloat x) := by
  unfold ofFloat
  split
  · exact definite_int _
  · exact definite_float x

theorem definite_of_get?
    (h : Ordered.get? key fields = some v) (hf : ∀ f ∈ fields, Definite f.2) : Definite v :=
  hf _ (mem_of_get? h)

theorem definite_follow {w : Json} (hv : Definite v) (hw : w ∈ follow key v) : Definite w := by
  cases v with
  | obj fields =>
    rw [follow, Option.mem_toList] at hw
    exact definite_of_get? hw ((definite_obj_iff fields).1 hv)
  | arr items =>
    rw [follow, mem_filterMap] at hw
    obtain ⟨item, hitem, hget⟩ := hw
    have hdef := (definite_arr_iff items).1 hv item hitem
    cases item with
    | obj fields => exact definite_of_get? hget ((definite_obj_iff fields).1 hdef)
    | _ => simp [get?] at hget
  | _ => simp [follow] at hw

theorem definite_reached (keys : List String) (r : Reached) (hr : ∀ v ∈ r.values, Definite v) :
    ∀ v ∈ (keys.foldl Reached.step r).values, Definite v := by
  induction keys generalizing r with
  | nil => exact hr
  | cons key rest ih =>
    refine ih (r.step key) (fun v hv => ?_)
    obtain ⟨u, hu, huv⟩ := mem_flatMap.1 hv
    exact definite_follow (hr u hu) huv

theorem definite_present {r : Reached} (hr : ∀ v ∈ r.values, Definite v) :
    ∀ v ∈ r.present, Definite v := by
  intro v hv
  obtain ⟨u, hu, huv⟩ := mem_flatMap.1 hv
  have hmem := (mem_filter.1 huv).1
  cases u with
  | arr items => exact (definite_arr_iff items).1 (hr _ hu) v hmem
  | _ =>
    rw [mem_singleton.1 hmem]
    exact hr _ hu

theorem definite_lookup (hv : Definite v) (path : Path) : Definite (v.lookup path) := by
  unfold lookup
  split
  · exact hv
  · have hall := definite_present (definite_reached path.keys ⟨false, [v]⟩
      (by simpa using hv))
    unfold Reached.result
    split
    · exact (definite_arr_iff _).2 hall
    · cases hhead : (path.keys.foldl Reached.step ⟨false, [v]⟩).present.head? with
      | none => exact definite_null
      | some w => exact hall w (mem_of_mem_head? hhead)

theorem definite_insert (hv : Definite v)
    (hf : ∀ f ∈ fields, Definite f.2) : ∀ f ∈ insert key v fields, Definite f.2 := by
  intro f h
  rcases mem_insert h with rfl | h
  · exact hv
  · exact hf f h

theorem definite_mkObj (hf : ∀ f ∈ fields, Definite f.2) : Definite (.mkObj fields) := by
  refine (definite_obj_iff _).2 (fun f hmem => ?_)
  exact hf f ((mem_foldl_insert hmem).resolve_right not_mem_nil)

mutual

theorem definite_collectLeaves (path : Path) (v : Json) (found : Fields) (hv : Definite v)
    (hf : ∀ f ∈ found, Definite f.2) : ∀ f ∈ collectLeaves path v found, Definite f.2 := by
  cases v with
  | obj fields =>
    exact definite_collectFields path fields found ((definite_obj_iff fields).1 hv) hf
  | null => exact hf
  | _ => exact definite_insert hv hf

theorem definite_collectFields (path : Path) (fields found : Fields)
    (hv : ∀ f ∈ fields, Definite f.2) (hf : ∀ f ∈ found, Definite f.2) :
    ∀ f ∈ collectFields path fields found, Definite f.2 := by
  cases fields with
  | nil => exact hf
  | cons f rest =>
    rw [forall_mem_cons] at hv
    exact definite_collectFields path rest _ hv.2 (definite_collectLeaves _ f.2 found hv.1 hf)

end

theorem definite_leaves (hv : Definite v) : Definite v.leaves := (definite_obj_iff _).2
    (definite_collectLeaves _ v [] hv (forall_mem_nil _))

theorem definite_getD {items : List Json} (h : ∀ v ∈ items, Definite v) {o : Option Json}
    (ho : ∀ v, o = some v → v ∈ items) : Definite (o.getD .null) := by
  cases o with
  | none => exact definite_null
  | some v => exact h v (ho v rfl)

theorem definite_item {index : Json} (hv : Definite v) : Definite (v.item index) := by
  unfold item
  split
  · split
    · split
      · exact definite_null
      · exact definite_getD ((definite_arr_iff _).1 hv) (fun w hw => mem_of_getElem? hw)
    · exact definite_null
  · exact definite_lookup hv _
  · exact definite_null

end Json

open Json

variable {v other : Json}

theorem DataType.definite_convert (type : DataType) (hv : Definite v) :
    Definite (type.convert v) := by
  cases type with
  | boolean => cases v <;> exact definite_bool _
  | number =>
    unfold convert
    cases v.toNumber? with
    | none => exact definite_null
    | some x => exact definite_ofFloat x
  | integer =>
    unfold convert
    cases v.toNumber? with
    | none => exact definite_null
    | some x => exact definite_ofFloat _
  | string => exact definite_optStr _
  | _ => exact hv

theorem Unary.definite_apply (op : Unary) (hv : Definite v) : Definite (op.apply v) := by
  cases op with
  | not | missing | present | isType => exact definite_bool _
  | first =>
    cases v with
    | arr items => exact definite_getD ((definite_arr_iff _).1 hv) (fun w hw =>
      mem_of_mem_head? hw)
    | _ => exact hv
  | last =>
    cases v with
    | arr items => exact definite_getD ((definite_arr_iff _).1 hv) (fun w hw => mem_of_getLast? hw)
    | _ => exact hv
  | length =>
    cases v with
    | str s => exact definite_nat _
    | _ => exact definite_null
  | convert t => exact definite_convert t hv

theorem Binary.definite_apply (op : Binary) {w : Json} (hv : Definite v) :
    Definite (op.apply v w) := by
  cases op with
  | eq | ne | compare | startsWith | endsWith => exact definite_bool _
  | side o =>
    rw [Binary.apply]
    split
    · exact definite_str _
    · exact definite_null
  | split =>
    rw [Binary.apply]
    split
    · split
      · exact definite_null
      · exact definite_strings _
    · exact definite_null
  | get => exact definite_item hv
  | basicEq | basicCompare o =>
    rw [Binary.apply]
    split
    · exact definite_null
    · exact definite_bool _

theorem Json.definite_extreme (choose : Float → Float → Float) (values : List Json) :
    Definite (Json.extreme choose values) := by
  unfold Json.extreme
  split
  · exact definite_null
  · exact definite_ofFloat _

theorem Nary.definite_apply (op : Nary) {values : List Json} (hv : ∀ v ∈ values, Definite v) :
    Definite (op.apply values) := by
  cases op with
  | and | or => exact definite_bool _
  | coalesce => exact definite_getD hv (fun w hw => mem_of_find?_eq_some hw)
  | min | max => exact definite_extreme _ _
  | count => exact definite_nat _
  | tuple => exact (definite_arr_iff _).2 hv

theorem Arith.definite_apply (op : Arith) (v w : Json) (ho : Definite other) :
    Definite (op.apply v w other) := by
  unfold Arith.apply
  split
  · split
    · exact definite_ofFloat _
    · exact ho
  · exact ho

theorem Fold.definite_apply (op : Fold) (nulls : Bool) (values : List Json)
    (ho : Definite other) : Definite (op.apply nulls values other) := by
  unfold Fold.apply
  dsimp only
  split
  · exact ho
  · exact definite_ofFloat _

theorem Json.definite_join (separator : String) (values : List Json)
    (ho : Definite other) : Definite (Json.join separator values other) := by
  unfold Json.join
  split
  · exact ho
  · exact definite_str _

theorem Json.definite_cut (text start stop : Json) : Definite (text.cut start stop) := by
  unfold Json.cut
  split
  · exact definite_str _
  · exact definite_null

end Snowbank
