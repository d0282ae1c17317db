import Keyset.Query

/-!
# The surface of the library

What a service calls: a request, or the document of one, becomes a query in one step. The version is the one that a client can ask
for.
-/

namespace Keyset

/-- The version of the library (`VERSION`). -/
def version : String :=
  "0.4.0"

namespace Query

variable [DecidableEq κ]

/-- The query of a request. -/
def ofRequest (d : Definition κ) (request : Request) : Except QueryError (Query κ) := do
  let listing ← (Listing.ofRequest d request).mapError .request
  ofListing d listing

/-- The query of the request in a document (`compile_json`). -/
def ofJson (d : Definition κ) (text : String) : Except QueryError (Query κ) := do
  let listing ← (Listing.ofJson d text).mapError .request
  ofListing d listing

end Query

end Keyset
