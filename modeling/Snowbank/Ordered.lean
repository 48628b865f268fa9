/-!
# Ordered Association Lists

Finite maps kept as lists in increasing key order.

Documents, catalogs and row batches are all shown in key order, so order is
part of what a map is here and not a detail of how it is stored. A list in
key order makes that visible: two maps with the same entries are the same
list, and walking the list is walking the map. A key written twice keeps the
later value.
-/

namespace Snowbank.Ordered

variable {κ α : Type} [Ord κ]

/-- Write `value` at `key`, in its place in the order. -/
def insert (key : κ) (value : α) : List (κ × α) → List (κ × α)
  | [] => [(key, value)]
  | (k, v) :: rest =>
    match compare key k with
    | .lt => (key, value) :: (k, v) :: rest
    | .eq => (key, value) :: rest
    | .gt => (k, v) :: insert key value rest

/-- The value at `key`. -/
def get? (key : κ) : List (κ × α) → Option α
  | [] => none
  | (k, v) :: rest =>
    match compare key k with
    | .eq => some v
    | _ => get? key rest

/-- The map has an entry at `key`. -/
def contains (key : κ) (entries : List (κ × α)) : Bool :=
  (get? key entries).isSome

/-- Drop the entry at `key`, if there is one. -/
def erase (key : κ) : List (κ × α) → List (κ × α)
  | [] => []
  | (k, v) :: rest =>
    match compare key k with
    | .eq => rest
    | _ => (k, v) :: erase key rest

/-- The entries of a list as a map; of two with one key the later stays. -/
def ofList (entries : List (κ × α)) : List (κ × α) :=
  entries.foldl (fun map (key, value) => insert key value map) []

/-- Replace the value at `key` by `change` of it, starting from `start` where there is none. -/
def update (key : κ) (start : α) (change : α → α) (entries : List (κ × α)) :
    List (κ × α) :=
  insert key (change ((get? key entries).getD start)) entries

/-- Put an element into a set. -/
def insertElem (key : κ) : List κ → List κ
  | [] => [key]
  | k :: rest =>
    match compare key k with
    | .lt => key :: k :: rest
    | .eq => k :: rest
    | .gt => k :: insertElem key rest

/-- The elements of a list, in order and each once. -/
def elems (keys : List κ) : List κ :=
  keys.foldl (fun set key => insertElem key set) []

/-- Put a value before the first that it may stand before. -/
def insertBy (le : α → α → Bool) (x : α) : List α → List α
  | [] => [x]
  | y :: rest => if le x y then x :: y :: rest else y :: insertBy le x rest

/-- Sort a list; values of which each may stand before the other keep their order. -/
def sortBy (le : α → α → Bool) (xs : List α) : List α :=
  xs.foldr (insertBy le) []

end Snowbank.Ordered
