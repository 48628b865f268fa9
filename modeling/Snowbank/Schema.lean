import Snowbank.Path

/-!
# Schemas

What has to be known of the stored documents to read a query: which types are
stored at a path, and which paths are arrays of documents with a table of
their own.
-/

namespace Snowbank

/-- What is stored at which path. Paths start at the root of the documents. -/
structure Schema where
  /-- The name of the collection. -/
  fact : String
  /-- The types stored at a path, or nothing if the schema does not say. -/
  typesAt : Path → Option (List DataType)
  /-- The path is an array of documents with a table of its own. -/
  isNested : Path → Bool
  /-- The deepest array of documents that a path lies in. -/
  nestedPathOf : Path → Path
  /-- Something is stored beneath a path. -/
  hasDescendants : Path → Bool

/-- The schema that says nothing about any path. -/
def Schema.untyped : Schema where
  fact := ""
  typesAt := fun _ => none
  isNested := fun _ => false
  nestedPathOf := fun _ => Path.root
  hasDescendants := fun _ => false

end Snowbank
