import Replikon.Model.Intervals
import Replikon.Model.MessagesDao
import Replikon.Model.SecurityProvider
import Replikon.Model.Serde

/-!
# `crdt::Log`

The replicated message log over chat messages: what it offers, what it asks
for, what it hands out and what it takes in. The loops over maps visit the keys
in ascending order.
-/

namespace Replikon.Log

open Foundation

/-- `Log::Header`, which is also `Log::Request`. -/
abbrev Header := SortedMap Text (List Interval)

abbrev Request := Header

/-- `Log::Update`. -/
abbrev Update (Signature : Type) := SortedMap Text (List (Signature × ChatMessage))

variable {Signature : Type} (sodium : Sodium Signature)

def getHeader : Program Header := do
  valueOf (← MessagesDao.getHeaders)

/-- The loop of `getRequest`. -/
def requestEntries (localHeader : Header) : List (Text × List Interval) → Request → Program Request
  | [], result => pure result
  | (k, v) :: rest, result => do
    let difference ← intervalsDifference v ((localHeader.find k).getD [])
    requestEntries localHeader rest (result.insert k difference)

def getRequest (header : Header) : Program Request := do
  let localHeader ← valueOf (← MessagesDao.getHeaders)
  requestEntries localHeader header.entries SortedMap.empty

/-- `std::copy` of a stored signature into a `Signature`. A blob of another
length overruns the array or leaves part of it unset. -/
def copySignature (sign : Buffer) : Program Signature :=
  match sodium.ofBytes sign with
  | some signature => pure signature
  | none => stop .undefined

/-- The inner loop of `getUpdate`. -/
def convert : List SignedChatMeesage → Program (List (Signature × ChatMessage))
  | [] => pure []
  | signedMsg :: rest => do
    let signature ← copySignature sodium signedMsg.sign
    let converted ← convert rest
    pure ((signature, signedMsg.msg) :: converted)

/-- The outer loop of `getUpdate`: an author whose query fails is left out. -/
def updateEntries : List (Text × List Interval) → Update Signature → Program (Update Signature)
  | [], update => pure update
  | (k, v) :: rest, update => do
    match ← MessagesDao.getAllMessages k v with
    | .error _ => updateEntries rest update
    | .ok msgs =>
      let converted ← convert sodium msgs
      updateEntries rest (update.insert k converted)

def getUpdate (request : Request) : Program (Update Signature) :=
  updateEntries sodium request.entries SortedMap.empty

/-- The inner loop of `merge`. The check is against the key `k` of the map, the
insertion is of the message as it is. -/
def mergeMessages (k : Text) : List (Signature × ChatMessage) → Bool → Program Bool
  | [], merged => pure merged
  | (sig, m) :: rest, merged => do
    if ← SecurityProvider.isValid sodium Serde.chatMessage sig k m then
      let res ← MessagesDao.insertMessage ⟨m, sodium.toBytes sig⟩
      mergeMessages k rest (merged || res = .ok)
    else mergeMessages k rest merged

/-- The outer loop of `merge`. -/
def mergeEntries : List (Text × List (Signature × ChatMessage)) → Bool → Program Bool
  | [], merged => pure merged
  | (k, v) :: rest, merged => do
    let merged ← mergeMessages sodium k v merged
    mergeEntries rest merged

def merge (update : Update Signature) : Program MergeStatus := do
  let merged ← mergeEntries sodium update.entries false
  pure (if merged then .merged else .skipped)

def addNewMessage (author : Author) (v : ChatMessage) : Program Unit := do
  let lamport ← valueOf (← MessagesDao.getNextLamport author)
  let v := { v with lamport := lamport }
  let signature ← SecurityProvider.sign sodium Serde.chatMessage v
  let _ ← MessagesDao.insertMessage ⟨v, sodium.toBytes signature⟩
  pure ()

/-- What a complete pull leaves: the update, the status of its merge and both
replicas. -/
structure Pulled (Signature : Type) where
  update : Update Signature
  status : MergeStatus
  source : Replica
  puller : Replica

/-- One complete pull, `B.merge(A.getUpdate(B.getRequest(A.getHeader())))`, or
the reason for which one of the two replicas stopped. -/
def pull (source puller : Replica) : Except Stop (Pulled Signature) :=
  match getHeader.run source with
  | .error reason _ => .error reason
  | .ok header source =>
    match (getRequest header).run puller with
    | .error reason _ => .error reason
    | .ok request puller =>
      match (getUpdate sodium request).run source with
      | .error reason _ => .error reason
      | .ok update source =>
        match (merge sodium update).run puller with
        | .error reason _ => .error reason
        | .ok status puller => .ok ⟨update, status, source, puller⟩

end Replikon.Log
