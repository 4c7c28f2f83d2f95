import PollingExpress.Common.Hashtable
import PollingExpress.Framework.System

/-!
# The name server

`nameserver.c`, and its wrappers in `syscall.c`. A task that calls `RegisterAs` or `WhoIs` makes
a request, sends it and reads the response; the server keeps, in a hash table, the task id
under the hash of the name, as a pointer.

One step of the system is one call, from the request to what the wrapper returns: the
server is up, and takes the requests one after the other in the order in which they come.
-/

namespace PollingExpress
namespace Name

/-- `MAX_NAMES`. -/
def maxNames : ℕ := 1000

/-- `MAX_BODY_LENGTH`. -/
def maxBodyLength : ℕ := 128

instance : NeZero maxNames := ⟨by decide⟩

/-- A task id, which is an `int` that is not negative. -/
abbrev Tid := Fin (2 ^ 31)

inductive Fault
  /-- "name must fit in body arr". -/
  | tooLong
  /-- "Must hold 4 bytes". -/
  | tooShort
  | outOfBounds
  deriving DecidableEq

/-- The characters of a name that fits the message. -/
structure TaskName where
  bytes : List Char8
  ends : 0 ∉ bytes
  fits : bytes.length + 1 < maxBodyLength
  deriving DecidableEq

inductive NameserverRequestType
  | registerAs
  | whoIs
  deriving DecidableEq

inductive NameserverResponseType
  | good
  | nameDne
  deriving DecidableEq

structure NameserverRequest where
  type : NameserverRequestType
  body : List Char8
  bodyLength : ℕ

structure NameserverResponse where
  type : NameserverResponseType
  body : List Char8
  bodyLength : ℕ

/-- The `memset` and the `memcpy` of the two `init` functions. -/
def copyBody (body : List Char8) (bodyLength : ℕ) : List Char8 :=
  body.take (min maxBodyLength bodyLength) ++ List.replicate (maxBodyLength - bodyLength) 0

def nameserverRequestInit (type : NameserverRequestType) (body : List Char8) (bodyLength : ℕ) :
    Except Fault NameserverRequest :=
  if bodyLength < maxBodyLength then .ok ⟨type, copyBody body bodyLength, bodyLength⟩
  else .error .tooLong

def nameserverResponseInit (type : NameserverResponseType) (body : List Char8) (bodyLength : ℕ) :
    Except Fault NameserverResponse :=
  if bodyLength < maxBodyLength then .ok ⟨type, copyBody body bodyLength, bodyLength⟩
  else .error .tooLong

/-- `(tid >> k) & 0xFF`. -/
def byteAt (tid : BitVec 32) (k : ℕ) : Char8 := (tid.sshiftRight k &&& 0xFF#32).setWidth 8

/-- What the server writes to `response_body`. -/
def tidBytes (tid : BitVec 32) : List Char8 :=
  [byteAt tid 24, byteAt tid 16, byteAt tid 8, byteAt tid 0]

def getTidFromNameserverResponse (rs : NameserverResponse) : Except Fault (BitVec 32) :=
  if 4 ≤ rs.bodyLength then
    match rs.body with
    | b₀ :: b₁ :: b₂ :: b₃ :: _ =>
      .ok (b₀.setWidth 32 <<< 24 ||| b₁.setWidth 32 <<< 16 ||| b₂.setWidth 32 <<< 8 |||
        b₃.setWidth 32)
    | _ => .error .outOfBounds
  else .error .tooShort

/-- What a task calls. -/
structure Call where
  who : Tid
  type : NameserverRequestType
  name : TaskName
  deriving DecidableEq

/-- A call and what it returned. -/
structure Round where
  call : Call
  result : Int
  deriving DecidableEq

/-- The table of `nameserver`, and the calls with their results. -/
structure NameServer where
  ht : Hashtable maxNames
  log : List Round

namespace NameServer

/-- `nameserver` up to its loop. -/
def start : NameServer := ⟨.htInit maxNames, []⟩

/-- The loop body of `nameserver`: the table after it, and the response. `lookupTid` is what is in
the variable that `ht_get` does not write if the key is missing. -/
def nameserver (ht : Hashtable maxNames) (lookupTid : Pointer) (who : Tid)
    (request : NameserverRequest) :
    Except Fault (Hashtable maxNames × NameserverResponse) :=
  match request.type with
  | .registerAs =>
    match ht.htInsert request.body (BitVec.ofNat 32 who) with
    | none => .error .outOfBounds
    | some ht => do
      -- of `response_body`, nothing is copied
      let response ← nameserverResponseInit .good [] 0
      .ok (ht, response)
  | .whoIs =>
    match ht.htGet request.body with
    | none => .error .outOfBounds
    | some (some tid) => do
      let response ← nameserverResponseInit .good (tidBytes tid) 4
      .ok (ht, response)
    | some none => do
      let response ← nameserverResponseInit .nameDne (tidBytes lookupTid) 4
      .ok (ht, response)

/-- `RegisterAs`, up to its `Send`, or `WhoIs`. -/
def request (type : NameserverRequestType) (name : TaskName) : Except Fault NameserverRequest :=
  nameserverRequestInit type (name.bytes ++ [0]) (name.bytes.length + 1)

/-- What `RegisterAs` or `WhoIs` returns after its `Send`. -/
def result (type : NameserverRequestType) (response : NameserverResponse) : Except Fault Int :=
  match type with
  | .registerAs => .ok 0
  | .whoIs =>
    match response.type with
    | .good => do
      let tid ← getTidFromNameserverResponse response
      .ok tid.toInt
    | .nameDne => .ok (-2)

/-- A call of `RegisterAs` or `WhoIs`. -/
def call (s : NameServer) (lookupTid : Pointer) (c : Call) : Except Fault NameServer := do
  let rq ← request c.type c.name
  let (ht, response) ← nameserver s.ht lookupTid c.who rq
  let res ← result c.type response
  .ok ⟨ht, s.log ++ [⟨c, res⟩]⟩

end NameServer

/-- The server, for calls of any tasks in any order. -/
def nameSystem : System NameServer Call where
  init s := s = .start
  step s c s' := ∃ lookupTid, s.call lookupTid c = .ok s'

end Name
end PollingExpress
