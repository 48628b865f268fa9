import Snowbank.Store.Error
import Snowbank.Store.Statement

/-!
# Backends

A backend is what a database is to the rest of the library: it takes
statements and answers each with success, with rows or with a message. Its
state is a type of its own, so that whatever is said about the library holds
for every store and for every choice of statements that fail.
-/

namespace Snowbank

/-- What a store with states of type `σ` does. -/
structure Backend (σ : Type) where
  /-- Open the store at a path. -/
  openAt : String → σ → Except String Unit × σ
  /-- Run statements without parameters. -/
  batch : String → σ → Except String Unit × σ
  /-- Run a statement with parameters. -/
  execute : String → List Param → σ → Except String Unit × σ
  query : String → List Param → σ → Except String (List (List Cell)) × σ

/-- Work on a store that may fail. What was done before a failure stays done. -/
abbrev StoreM (σ α : Type) := ExceptT ExecutionError (StateM σ) α

namespace Backend

variable {σ : Type}

/-- Run text without parameters. -/
def command (b : Backend σ) (text : String) (store : σ) : Except ExecutionError Unit × σ :=
  let (result, store) := b.batch text store
  (result.mapError fun message => .execute message text, store)

/-- Run a statement. -/
def send (b : Backend σ) (s : Statement) (store : σ) : Except ExecutionError Unit × σ :=
  if s.params.isEmpty then b.command s.sql store
  else
    let (result, store) := b.execute s.sql s.params store
    (result.mapError fun message => .execute message s.sql, store)

/-- Run statements up to the first that fails. -/
def sendAll (b : Backend σ) : List Statement → σ → Except ExecutionError Unit × σ
  | [], store => (.ok (), store)
  | s :: rest, store =>
    match b.send s store with
    | (.ok _, store) => sendAll b rest store
    | (.error e, store) => (.error e, store)

/-- Run a statement and take its rows. -/
def fetch (b : Backend σ) (s : Statement) (store : σ) : Except ExecutionError Rows × σ :=
  let (result, store) := b.query s.sql s.params store
  match result with
  | .ok rows => (.ok (rows.map fun row => row.map Cell.toJson), store)
  | .error message => (.error (.execute message s.sql), store)

def openStore (b : Backend σ) (path : String) : StoreM σ Unit :=
  ExceptT.mk fun store =>
    let (result, store) := b.openAt path store
    (result.mapError fun message => .execute message "open", store)

end Backend

end Snowbank
