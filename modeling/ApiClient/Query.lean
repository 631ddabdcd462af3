import ApiClient.Json.Printer
import ApiClient.Text.Percent

/-!
# Query strings and URLs

Parameters are flattened to pairs of texts: a top-level `null` gives none, a top-level array one pair for each item in
order, everything else one pair.  Strings are taken as they are, other values as compact JSON.  The pairs are
percent-encoded and joined behind a `?`, which is left out when there are none.

A URL is the base, the path with every `:` made a `_`, and the query string.
-/

namespace ApiClient.Query

/-- The text of a parameter or form value. -/
def valueText : Json → String
  | .str s => s
  | v => v.render

/-- The pairs of one parameter. -/
def flattenParam (key : String) : Json → List (String × String)
  | .null => []
  | .arr items => items.map fun v => (key, valueText v)
  | v => [(key, valueText v)]

/-- The pairs of all parameters, in order. -/
def flatten (params : List (String × Json)) : List (String × String) :=
  params.flatMap fun p => flattenParam p.1 p.2

/-- One encoded pair. -/
def encodePair (pair : String × String) : List Char :=
  Text.Percent.encodeComponent pair.1.toList ++ '=' :: Text.Percent.encodeComponent pair.2.toList

/-- Encoded pairs with `&` between them. -/
def joinPairs : List (String × String) → List Char
  | [] => []
  | [pair] => encodePair pair
  | pair :: rest => encodePair pair ++ '&' :: joinPairs rest

/-- The query string of some pairs. -/
def ofPairs (pairs : List (String × String)) : List Char :=
  if pairs.isEmpty then [] else '?' :: joinPairs pairs

/-- The query string of some parameters. -/
def text (params : List (String × Json)) : String := String.ofList (ofPairs (flatten params))

/-- A path without colons. -/
def cleanPath (path : String) : String := path.map fun c => if c = ':' then '_' else c

/-- The URL of a call. -/
def url (base path : String) (params : List (String × Json)) : String := base ++ cleanPath path ++ text params

end ApiClient.Query
