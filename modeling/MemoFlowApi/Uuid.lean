/-!
# Identifiers

The ids that the API generates and checks at its boundary.  They are never empty.
-/

namespace MemoFlowApi

structure Uuid where
  text : String
  ne_empty : text ≠ ""
  deriving DecidableEq

instance : ToString Uuid := ⟨Uuid.text⟩

end MemoFlowApi
