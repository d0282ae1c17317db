import Keyset.Boundary.Token
import Keyset.Listing

/-!
# Errors of queries

Everything that can go wrong on the way from a request to a query, with the part of the program it comes from. A
rejected request is the client's to mend; an internal error is a mistake in the definition of the list.
-/

namespace Keyset

/-- Why there is no query. -/
inductive QueryError where
  | request (error : RequestError)
  | token (error : TokenError)
  | definition (error : DefinitionError)
  | policy (error : PolicyError)
  deriving DecidableEq

namespace QueryError

/-- Who has to mend an error (`ErrorClass`). -/
inductive Class where
  | rejected
  | internal
  deriving DecidableEq

/-- The name of a class. -/
def Class.name : Class → String
  | .rejected => "rejected"
  | .internal => "internal"

/-- The part of the program that an error comes from (`ErrorOrigin`). -/
inductive Origin where
  | input
  | cursor
  | compile
  | policy
  deriving DecidableEq

/-- The name of a part of the program. -/
def Origin.name : Origin → String
  | .input => "input"
  | .cursor => "cursor"
  | .compile => "compile"
  | .policy => "policy"

/-- The class of an error: what comes from the request is rejected. -/
def errorClass : QueryError → Class
  | .request _ | .token _ => .rejected
  | .definition _ | .policy _ => .internal

/-- The part of the program in which an error arises. -/
def origin : QueryError → Origin
  | .request _ => .input
  | .token _ => .cursor
  | .definition _ => .compile
  | .policy _ => .policy

/-- Whether the client can mend the request. -/
def isRejected (error : QueryError) : Bool :=
  error.errorClass = .rejected

/-- The wording of an error, which begins with its origin. -/
def message : QueryError → String
  | .request error => "invalid list query: " ++ error.message
  | .token error => "invalid cursor: " ++ error.message
  | .definition error => "list query compilation failed: " ++ error.message
  | .policy error => "invalid pagination policy: " ++ error.message

end QueryError

end Keyset
