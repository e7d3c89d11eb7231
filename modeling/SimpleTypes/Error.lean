import SimpleTypes.ParseError
import SimpleTypes.TypeError

/-!
# Errors of either kind
-/

namespace SimpleTypes

inductive Error where
  | parse (error : ParseError)
  | typing (error : TypeError)
  deriving DecidableEq, Repr, Inhabited

def Error.message : Error → String
  | .parse error => "Parse error: " ++ error.message
  | .typing error => "Type error: " ++ error.message

end SimpleTypes
