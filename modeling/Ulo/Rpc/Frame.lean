import Mathlib.Tactic.Common

/-!
# The frame grammar

What the two sides of an RPC link exchange: requests and events, replies, the items
of the two streams, and the frames that end or give up a call. `id` is the number
the sender's side knows the call by.
-/

namespace Ulo.Rpc

/-- `ErrorKind`. -/
inductive ErrorKind
  | badRequest
  | unauthorized
  | forbidden
  | notFound
  | conflict
  | unprocessable
  | tooManyRequests
  | timeout
  | unavailable
  | unimplemented
  | internal
deriving DecidableEq, Repr

/-- `serde_json::Number`: an integer that is not negative, one that is, by its
magnitude less one, or the bits of a float. -/
inductive JsonNumber
  | posInt (n : ℕ)
  | negInt (n : ℕ)
  | float (bits : UInt64)
deriving DecidableEq, Repr

/-- `serde_json::Value`. -/
inductive Json
  | null
  | bool (b : Bool)
  | number (n : JsonNumber)
  | string (s : String)
  | array (items : List Json)
  | object (members : List (String × Json))

/-- `FieldViolation`. -/
structure FieldViolation where
  field : String
  description : String
deriving DecidableEq, Repr

/-- `Link`, of a `Help` detail. -/
structure HelpLink where
  description : String
  url : String
deriving DecidableEq, Repr

/-- `std::time::Duration`. -/
structure Duration where
  secs : UInt64
  subsecNanos : ℕ
deriving DecidableEq, Repr

/-- `Detail`. -/
inductive Detail
  | fieldViolations (violations : List FieldViolation)
  | errorInfo (reason domain : String) (metadata : List (String × String))
  | retryAfter (after : Duration)
  | help (links : List HelpLink)
  | json (value : Json)

/-- `ErrorBody`. -/
structure ErrorBody where
  kind : ErrorKind
  message : String
  details : List Detail := []

/-- `CallHeaders`: in order, a name possibly several times. -/
abbrev CallHeaders := List (String × String)

/-- `Data`: a payload, in the link's codec. -/
abbrev Data := List UInt8

/-- **A frame.** -/
inductive Frame
  | req (id : ℕ) (pattern : String) (headers : CallHeaders) (data : Data)
  | evt (pattern : String) (headers : CallHeaders) (data : Data)
  | res (id : ℕ) (data : Data)
  | err (id : ℕ) (error : ErrorBody)
  | item (id : ℕ) (data : Data)
  | end_ (id : ℕ)
  | open_ (id : ℕ) (pattern : String) (headers : CallHeaders)
  | in_ (id : ℕ) (data : Data)
  | inEnd (id : ℕ)
  | cancel (id : ℕ)
  | credit (id n : ℕ)
  | goaway

namespace Frame

/-- `Frame::id`. -/
def id : Frame → Option ℕ
  | .req id _ _ _ | .res id _ | .err id _ | .item id _ | .end_ id | .open_ id _ _ | .in_ id _
  | .inEnd id | .cancel id | .credit id _ => some id
  | .evt _ _ _ | .goaway => none

/-- The id of the call a frame asks for. -/
def opens : Frame → Option ℕ
  | .req id _ _ _ | .open_ id _ _ => some id
  | _ => none

/-- The id of the call a caller's frame continues or gives up. -/
def continues : Frame → Option ℕ
  | .in_ id _ | .inEnd id | .cancel id => some id
  | _ => none

/-- Whether a reply ends its call. -/
def ends : Frame → Bool
  | .res _ _ | .err _ _ | .end_ _ => true
  | _ => false

end Frame

end Ulo.Rpc
