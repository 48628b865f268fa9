/-!
# Kinds of Errors

What a caller can act on when a request fails. The words are part of every
error answer.
-/

namespace Snowbank

/-- The kind of an error. -/
inductive ErrorKind where
  | parse
  | schema
  | depth
  | arity
  | domain
  | execute
  | transaction
  /-- The request cannot be processed at all and has no error answer. -/
  | abort
  deriving DecidableEq, Repr

/-- The word for a kind in an error answer. -/
def ErrorKind.name : ErrorKind → String
  | .parse => "parse_error"
  | .schema => "schema_error"
  | .depth => "depth_mismatch"
  | .arity => "arity_error"
  | .domain => "domain_error"
  | .execute => "execute_error"
  | .transaction => "transaction_error"
  | .abort => "panic"

end Snowbank
