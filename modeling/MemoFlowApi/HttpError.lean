/-!
# HTTP Errors

The exceptions that use cases throw, with the messages their callers see.
-/

namespace MemoFlowApi

inductive ErrorKind where
  | badRequest
  | unauthorized
  | forbidden
  | notFound
  /-- An error that is no HTTP exception; the API answers 500. -/
  | other
  deriving DecidableEq, Repr

structure HttpError where
  kind : ErrorKind
  message : String
  deriving DecidableEq, Repr

end MemoFlowApi
