set_option autoImplicit false

/-!
# Release
-/

namespace MonkeySource

/-- What a release of the front end says of itself. -/
structure Release where
  version : String
  makers : String
  terms : String
  deriving DecidableEq, Repr

def release : Release := ⟨"0.1.0", "Monkey developers", "MIT"⟩

end MonkeySource
