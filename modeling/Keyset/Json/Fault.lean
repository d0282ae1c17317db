/-!
# Faults of documents

Why a text is not the document that is asked for. The first fault in the order of the text is the one that is
reported; a key that is missing is reported at the end of its object. The names of fields and variants are told as the reader tells
them. Of its other reasons only the class is kept: where in the text a fault is, what was found there and which rule of the syntax
it breaks are left out.
-/

namespace Keyset.Json

/-- What is wrong with a document. -/
inductive Fault where
  /-- The text is no document, or a part that has to be read cannot be. -/
  | malformed
  | invalidType
  | invalidValue
  | invalidLength
  | missingField (name : String)
  | unknownField (name : String) (expected : List String)
  | unknownVariant (name : String) (expected : List String)
  | duplicateField (name : String)
  deriving DecidableEq

namespace Fault

/-- A name between backticks. -/
def quoted (name : String) : String :=
  "`" ++ name ++ "`"

/-- The names that would do; two are joined by a word, more are listed. -/
def alternatives : List String → String
  | [] => "nothing"
  | [a] => quoted a
  | [a, b] => quoted a ++ " or " ++ quoted b
  | names => "one of " ++ ", ".intercalate (names.map quoted)

/-- The wording of a fault. -/
def message : Fault → String
  | .malformed => "syntax"
  | .invalidType => "invalid type"
  | .invalidValue => "invalid value"
  | .invalidLength => "invalid length"
  | .missingField name => "missing field " ++ quoted name
  | .unknownField name expected => "unknown field " ++ quoted name ++ ", expected " ++ alternatives expected
  | .unknownVariant name expected => "unknown variant " ++ quoted name ++ ", expected " ++ alternatives expected
  | .duplicateField name => "duplicate field " ++ quoted name

end Fault

end Keyset.Json
