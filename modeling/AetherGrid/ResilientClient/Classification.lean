import AetherGrid.ResilientClient.Request

/-!
This module compares the errors of the resilient client with the classes of status codes they stand for.
-/

namespace AetherGrid

namespace ResilientClient

def RequestError.outcomeUnknown (exc : RequestError) : Bool :=
  match exc with
  | .serverError _ _ outcomeUnknown | .retryExhaustedError _ _ outcomeUnknown => outcomeUnknown
  | _ => false

variable {cfg : RetryConfig} {method path : String} {replaySafe : Bool} {attempt : Nat} {input : Attempt}
  {resp : Response} {told : List BreakerCall} {exc : RequestError}

end ResilientClient

end AetherGrid
