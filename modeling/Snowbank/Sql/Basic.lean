import Snowbank.Json.Printer

/-!
# SQL Text

SQL is put together from words, quoted names and quoted texts, and written
out at the end. What comes from a document or a query only ever enters as a
name or a text, and those are quoted when they are written. The one exception
is a script, which is SQL already.
-/

namespace Snowbank

/-- A part of an SQL text. -/
inductive SqlToken where
  /-- Keywords, numbers, operators and the blanks between them. -/
  | word (text : String)
  /-- The name of a table, a column or an alias. -/
  | name (text : String)
  /-- A literal text. -/
  | text (text : String)
  /-- SQL that is taken as it is. -/
  | script (sql : String)
  deriving DecidableEq

/-- A piece of SQL. -/
structure Sql where
  tokens : List SqlToken
  deriving DecidableEq

namespace Sql

/-- Nothing. -/
def empty : Sql := ⟨[]⟩

instance : Append Sql := ⟨fun a b => ⟨a.tokens ++ b.tokens⟩⟩

/-- Keywords, numbers and operators. -/
def word (text : String) : Sql := ⟨[.word text]⟩

instance : Coe String Sql := ⟨word⟩

/-- A quoted name. -/
def name (text : String) : Sql := ⟨[.name text]⟩

/-- A quoted text. -/
def text (text : String) : Sql := ⟨[.text text]⟩

/-- SQL that is taken as it is, in parentheses. -/
def script (sql : String) : Sql := ⟨[.script sql]⟩

/-- Write a quotation mark inside a quotation twice. -/
def doubled (quote : Char) : List Char → List Char
  | [] => []
  | c :: rest =>
    if c == quote then quote :: quote :: doubled quote rest else c :: doubled quote rest

/-- A text in quotation marks. -/
def quotedWith (quote : Char) (text : String) : String :=
  String.ofList (quote :: doubled quote text.toList ++ [quote])

/-- A token as text. -/
def renderToken : SqlToken → String
  | .word text => text
  | .name text => quotedWith '"' text
  | .text text => quotedWith '\'' text
  | .script sql => "(" ++ sql ++ ")"

/-- A piece of SQL as text. -/
def render (sql : Sql) : String :=
  String.join (sql.tokens.map renderToken)

/-- A column of a table or an alias. -/
def column (table : Sql) (column : String) : Sql :=
  table ++ "." ++ name column

/-- Pieces with a word between them. -/
def join (separator : String) : List Sql → Sql
  | [] => empty
  | [x] => x
  | x :: rest => x ++ separator ++ join separator rest

/-- An integer. -/
def int (n : Int) : Sql := word (toString n)

/-- SQL writes small and large doubles with an exponent, and marks whole ones by a decimal. -/
def floatLayout : Layout := ⟨fun lead => -4 ≤ lead && lead ≤ 15, true, false⟩

/-- A double, as one and not as a decimal; what is not finite is null. -/
def float (x : Float) : Sql :=
  match floatLayout.render? x with
  | some text => word ("CAST(" ++ text ++ " AS DOUBLE)")
  | none => "NULL"

mutual

/-- A JSON value as a literal. Arrays are lists, and objects are JSON text. -/
def value : Json → Sql
  | .null => "NULL"
  | .bool b => if b then "TRUE" else "FALSE"
  | .num n =>
    match n.toInt64? with
    | some i => int i
    | none => float n.toFloat
  | .str s => text s
  | .arr items => "[" ++ join ", " (values items) ++ "]"
  | .obj fields => text (Json.obj fields).toText

/-- JSON values as literals. -/
def values : List Json → List Sql
  | [] => []
  | v :: rest => value v :: values rest

end

end Sql

end Snowbank
