import Mathlib.Logic.Basic

/-!
# The messages of `keyvaluestore.proto`

Every message is a structure with the fields of the proto file, and a field
that the sender does not set has the proto3 default, as in the generated
classes.  `Status` is `grpc::Status`.  The servers answer with a few of its
codes, and a call that fails on the way can end with any of them but OK.

An operation type and its value travel as two separate fields in every
message and in the log.  `Operation` is the pair, and the `operation`
projections read it off a message.
-/

namespace PaxosKVStore

/-- Replica addresses, such as `0.0.0.0:9000`. -/
abbrev Addr := String

/-! ## Statuses -/

/-- `grpc::StatusCode`. -/
inductive StatusCode where
  | ok
  | cancelled
  | unknown
  | invalidArgument
  | deadlineExceeded
  | notFound
  | alreadyExists
  | permissionDenied
  | unauthenticated
  | resourceExhausted
  | failedPrecondition
  | aborted
  | outOfRange
  | unimplemented
  | internal
  | unavailable
  | dataLoss
  deriving DecidableEq, Repr

/-- `grpc::Status`. -/
structure Status where
  code : StatusCode
  message : String := ""
  deriving DecidableEq, Repr

/-- `Status::OK`. -/
def Status.OK : Status := { code := .ok }

/-- `Status::ok()`. -/
def Status.ok (status : Status) : Bool := status.code = .ok

@[simp] theorem Status.ok_OK : Status.OK.ok = true := rfl

@[simp] theorem Status.ok_mk (code : StatusCode) (message : String) :
    (Status.mk code message).ok = decide (code = .ok) := rfl

/-! ## Operations -/

inductive OperationType where
  | notSet
  | set
  | delete
  | setCoordinator
  deriving DecidableEq, Repr

/-- The `type` and `value` fields of a proposal, taken together. -/
structure Operation where
  type : OperationType := .notSet
  value : String := ""
  deriving DecidableEq, Repr

/-! ## Client requests -/

/-- `PutRequest`, `DeleteRequest` and `ElectCoordinatorRequest`, the three
requests that `RunPaxos` is instantiated with. -/
inductive Request where
  | put (key value : String)
  | delete (key : String)
  | electCoordinator (key coordinator : String)
  deriving DecidableEq, Repr

/-- `req.key()`. -/
def Request.key : Request → String
  | .put key _ => key
  | .delete key => key
  | .electCoordinator key _ => key

/-- `SetProposeValue`: the operation that a request asks for.  The overload
for `DeleteRequest` leaves the value at its default. -/
def Request.setProposeValue : Request → Operation
  | .put _ value => { type := .set, value := value }
  | .delete _ => { type := .delete }
  | .electCoordinator _ coordinator => { type := .setCoordinator, value := coordinator }

/-- The two client requests that write. -/
def Request.IsUpdate : Request → Prop
  | .put .. => True
  | .delete _ => True
  | .electCoordinator .. => False

instance (request : Request) : Decidable request.IsUpdate :=
  match request with
  | .put .. => isTrue trivial
  | .delete _ => isTrue trivial
  | .electCoordinator .. => isFalse id

structure GetRequest where
  key : String
  deriving DecidableEq, Repr

structure GetResponse where
  value : String := ""
  deriving DecidableEq, Repr

structure GetCoordinatorResponse where
  coordinator : String := ""
  deriving DecidableEq, Repr

/-! ## Paxos messages -/

structure PrepareRequest where
  key : String
  round : Int
  proposeId : Int
  deriving DecidableEq, Repr

structure PromiseResponse where
  round : Int := 0
  proposeId : Int := 0
  acceptedId : Int := 0
  type : OperationType := .notSet
  value : String := ""
  deriving DecidableEq, Repr

structure ProposeRequest where
  key : String
  round : Int
  proposeId : Int
  type : OperationType
  value : String
  deriving DecidableEq, Repr

structure AcceptResponse where
  round : Int := 0
  proposeId : Int := 0
  type : OperationType := .notSet
  value : String := ""
  deriving DecidableEq, Repr

structure InformRequest where
  key : String
  acceptance : AcceptResponse
  deriving DecidableEq, Repr

structure PaxosLog where
  promisedId : Int := 0
  acceptedId : Int := 0
  acceptedType : OperationType := .notSet
  acceptedValue : String := ""
  deriving DecidableEq, Repr

def PromiseResponse.operation (resp : PromiseResponse) : Operation :=
  { type := resp.type, value := resp.value }

def ProposeRequest.operation (req : ProposeRequest) : Operation :=
  { type := req.type, value := req.value }

def AcceptResponse.operation (resp : AcceptResponse) : Operation :=
  { type := resp.type, value := resp.value }

def PaxosLog.operation (log : PaxosLog) : Operation :=
  { type := log.acceptedType, value := log.acceptedValue }

end PaxosKVStore
