import Snowbank.Ordered

/-!
# Metrics

Counters of requests and documents, and how they are shown: one line for each
counter, families and their members in order.
-/

namespace Snowbank

/-- The counters of a service. -/
structure Metrics where
  /-- Requests by endpoint and outcome. -/
  requests : List ((String × String) × Nat)
  /-- Documents by fact. -/
  documents : List (String × Nat)
  /-- How many queries were timed. -/
  queries : Nat

namespace Metrics

/-- Nothing has been counted. -/
def zero : Metrics := ⟨[], [], 0⟩

/-- The order of endpoints and outcomes. -/
instance pairOrd : Ord (String × String) := lexOrd

def countRequest (endpoint : String) (succeeded : Bool) (m : Metrics) : Metrics :=
  let key := (endpoint, if succeeded then "ok" else "error")
  { m with requests := Ordered.update key 0 (· + 1) m.requests }

def countDocuments (fact : String) (n : Nat) (m : Metrics) : Metrics :=
  { m with documents := Ordered.update fact 0 (· + n) m.documents }

/-- Count a query that was timed. -/
def countQuery (m : Metrics) : Metrics := { m with queries := m.queries + 1 }

/-- One character of the value of a label. -/
def escapeChar : Char → String
  | '\\' => "\\\\"
  | '"' => "\\\""
  | '\n' => "\\n"
  | c => c.toString

def label (key value : String) : String :=
  key ++ "=\"" ++ String.join (value.toList.map escapeChar) ++ "\""

/-- The line of a counter with labels. -/
def line (family : String) (labels : List (String × String)) (n : Nat) : String :=
  family ++ "\x7b" ++ ",".intercalate (labels.map fun (key, value) => label key value) ++ "\x7d " ++
    toString n

/-- The lines of the counters. -/
def lines (m : Metrics) : List String :=
  m.documents.map (fun (fact, n) => line "jx_documents_inserted_total" [("fact", fact)] n) ++
    ["jx_query_duration_seconds_count " ++ toString m.queries] ++
    m.requests.map fun ((endpoint, outcome), n) =>
      line "jx_requests_total" [("endpoint", endpoint), ("outcome", outcome)] n

end Metrics

end Snowbank
