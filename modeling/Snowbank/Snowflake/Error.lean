import Snowbank.ErrorKind
import Snowbank.Json.Printer
import Snowbank.Path
import Snowbank.Text.Quoted

/-!
# Errors of the Catalog

Why documents cannot be stored, or why a record of the catalog cannot be
read.
-/

namespace Snowbank

/-- Why a catalog or its documents are refused. -/
inductive SchemaError where
  | incompatible (path : Path) (type : DataType)
  | notObject (type : DataType)
  | unknownTable (table : String)
  /-- A record of the catalog lacks a text. -/
  | recordField (key : String) (record : Json)
  | recordType (record : Json)
  | recordNesting (fault : String)
  | recordRoot (nestedPath : List Path)
  | recordPartitions (fault : String)

namespace SchemaError

def kind : SchemaError → ErrorKind := fun _ => .schema

def message : SchemaError → String
  | incompatible path type => "Cannot store " ++ type.name ++ " values at " ++ path
  | notObject type => "Documents must be JSON objects, got " ++ type.name
  | unknownTable table => "Unknown table: " ++ table
  | recordField key record =>
    "Invalid catalog record: missing " ++ key ++ " in " ++ record.toText
  | recordType record => "Invalid catalog record: bad json_type in " ++ record.toText
  | recordNesting fault => "Invalid catalog record: bad nested_path: " ++ fault
  | recordRoot nestedPath =>
    "Invalid catalog record: nested_path must end with '.': " ++ Text.quotedList nestedPath
  | recordPartitions fault => "Invalid catalog record: bad partitions: " ++ fault

end SchemaError

end Snowbank
