namespace SaveTree
namespace Json

/-!
# Why a text is not the JSON asked for

A text is read from left to right and the first problem met decides.
-/

/-- The three ways a text can fail. -/
inductive Error where
  /-- The text is no JSON here, or holds what no value can keep. -/
  | malformed
  /-- The text ends where more of it is needed. -/
  | truncated
  /-- The text is JSON so far, but not of the shape asked for. -/
  | mismatched
  deriving DecidableEq

namespace Error

/-- The failure in words. -/
def message : Error → String
  | malformed => "text is not JSON"
  | truncated => "text ends too early"
  | mismatched => "value has another shape"

end Error

end Json
end SaveTree
