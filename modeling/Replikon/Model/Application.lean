import Replikon.Model.Instance

/-!
# The programs that use instances

`main` opens an instance on a database file under new keys, adds three messages
and prints what the log then holds. `SyncBetweenTwoPeers` lets two instances on
new databases add messages, share a key directory and pull from each other. Both
are given here with whatever messages and names they are used with.
-/

namespace Replikon.Application

open Foundation

variable {Signature : Type} (sodium : Sodium Signature)

/-- A message as the caller of `addNewMessage` gives it: the lamport, which the log
replaces, the time and the body. -/
abbrev Given := UInt64 × UInt64 × Text

/-- `addNewMessage` for each of the messages, under the name of their author. -/
def addEach (author : Author) : List Given → Program Unit
  | [] => pure ()
  | (lamport, originTs, body) :: rest => do
    Log.addNewMessage sodium author ⟨author, lamport, originTs, body⟩
    addEach author rest

section Main

/-- A line that `main` prints. -/
inductive Line where
  | interval (author : Text) (start len : Int64)
  | message (author body : Text)
  deriving DecidableEq

/-- The name of the only author. -/
def me : Author := ascii "me"

/-- The messages that `main` adds. -/
def mainMessages : List Given := [(0, 1, ascii "1"), (0, 1, ascii "2"), (0, 1, ascii "3")]

/-- The loop that prints the headers. -/
def headerLines (headers : Log.Header) : List Line :=
  headers.entries.flatMap fun entry =>
    entry.2.map fun i => .interval (cString entry.1) i.start.toInt64 i.len.toInt64

/-- The loop that prints the messages. -/
def messageLines (msgs : Log.Update Signature) : List Line :=
  msgs.entries.flatMap fun entry =>
    entry.2.map fun m => .message (cString entry.1) (cString m.2.body)

/-- What a run of `main` has printed in the end, and the database it leaves. -/
structure Ran where
  lines : List Line
  database : Database

/-- What `main` does with its instance, as far as it gets. -/
def useInstance (created : Replica) : Ran :=
  match (addEach sodium me mainMessages).run created with
  | .error _ after => ⟨[], after.database⟩
  | .ok _ after =>
    match Log.getHeader.run after with
    | .error _ after => ⟨[], after.database⟩
    | .ok headers after =>
      match (Log.getUpdate sodium headers).run after with
      | .error _ after => ⟨headerLines headers, after.database⟩
      | .ok msgs after => ⟨headerLines headers ++ messageLines msgs, after.database⟩

/-- What a process finds that runs `main`: the build, the keys it generates, what
becomes of its SQLite calls, and its locals. -/
structure Process where
  ndebug : Bool
  privKey : PrivKey
  script : List Outcome
  stack : List SqliteResult

/-- `main` on a database file. -/
def main (database : Database) (process : Process) : Ran :=
  let self : SecurityUserInfo :=
    ⟨me, sodium.publicKey process.privKey, some process.privKey, false⟩
  match (Instance.construct self).run
      (Instance.opening process.ndebug database process.script) with
  | .error _ opening => ⟨[], opening.database⟩
  | .ok privKey opening =>
    match Instance.ofOpening self privKey process.stack opening with
    | none => ⟨[], opening.database⟩
    | some replica => useInstance sodium replica

end Main

section Peers

variable (layouts : KeysCrdt.Layouts)

/-- What `createInstance` is called with and what the instance finds, and the
messages that are added to its log. -/
structure Peer where
  author : Author
  privKey : PrivKey
  ndebug : Bool
  stack : List SqliteResult
  messages : List Given

/-- `createInstance`, on a database in memory. -/
def Peer.create (peer : Peer) : Replica :=
  .fresh peer.ndebug peer.author (sodium.publicKey peer.privKey) peer.privKey peer.stack

/-- The headers at the end of the session, and the instances. -/
structure Synced where
  header1 : Log.Header
  header2 : Log.Header
  instance1 : Replica
  instance2 : Replica

/-- A program as a part of the session. -/
def on {α : Type} (program : Program α) (replica : Replica) : Except Stop (α × Replica) :=
  match program.run replica with
  | .ok value after => .ok (value, after)
  | .error reason _ => .error reason

/-- `SyncBetweenTwoPeers`. -/
def syncBetweenTwoPeers (alice bob : Peer) : Except Stop Synced := do
  let instance1 := alice.create sodium
  let instance2 := bob.create sodium
  let (_, instance1) ← on (addEach sodium alice.author alice.messages) instance1
  let (_, instance2) ← on (addEach sodium bob.author bob.messages) instance2
  let (_, instance1) ← on (KeysCrdt.setAdmin alice.author instance1.selfPubKey) instance1
  let (_, instance2) ← on (KeysCrdt.setAdmin alice.author instance1.selfPubKey) instance2
  let (_, instance1) ← on (KeysCrdt.addKey sodium layouts bob.author instance2.selfPubKey) instance1
  let keys ← KeysCrdt.pull sodium layouts instance1 instance2
  let there ← Log.pull sodium keys.source keys.puller
  let back ← Log.pull sodium there.puller there.source
  let (header1, instance1) ← on Log.getHeader back.puller
  let (header2, instance2) ← on Log.getHeader back.source
  pure ⟨header1, header2, instance1, instance2⟩

end Peers

end Replikon.Application
