import Replikon.Model.Clients
import Replikon.Model.Instance

/-!
# The calls of an instance are clients

What a caller can ask of an instance reaches the database through the access objects
only. Every operation is walked through once: it is given as a client, with the
calls that it can make. What is known of these calls then holds of the operation.
-/

namespace Replikon

open Foundation

variable {α : Type} {allowed : DaoCall → Prop}

/-- The program is that of a client that makes allowed calls only. -/
abbrev Through (allowed : DaoCall → Prop) (program : Program α) :=
  ClientOf Replica.setting DaoCall.program allowed program

namespace DaoCall

/-- The call by which the log tells and compares headers. -/
inductive TellsHeader : DaoCall → Prop where
  | getHeaders : TellsHeader .getHeaders

/-- The call by which it hands out messages. -/
inductive HandsOut : DaoCall → Prop where
  | getAllMessages (author : Text) (intervals : List Interval) :
      HandsOut (.getAllMessages author intervals)

/-- The calls by which it takes messages in. -/
inductive TakesIn : DaoCall → Prop where
  | getUserInfo (author : Author) : TakesIn (.getUserInfo author)
  | getNextLamport (author : Author) : TakesIn (.getNextLamport author)
  | insertMessage (signedMsg : SignedChatMeesage) : TakesIn (.insertMessage signedMsg)

/-- The calls by which the key directory answers. Reading the version may write it. -/
inductive ReadsDirectory : DaoCall → Prop where
  | getAdminsUserInfo : ReadsDirectory .getAdminsUserInfo
  | getAllPublicKeys : ReadsDirectory .getAllPublicKeys
  | getIntegerValue (key : Text) : ReadsDirectory (.getIntegerValue key)
  | insertIntegerValue (key : Text) (value : Int64) : ReadsDirectory (.insertIntegerValue key value)
  | getBlobValue (key : Text) : ReadsDirectory (.getBlobValue key)

/-- The calls by which it changes. -/
inductive WritesDirectory : DaoCall → Prop where
  | reads (call : DaoCall) (asked : ReadsDirectory call) : WritesDirectory call
  | getUserInfo (author : Author) : WritesDirectory (.getUserInfo author)
  | insertPublicKey (author : Author) (pubKey : PubKey) :
      WritesDirectory (.insertPublicKey author pubKey)
  | insertBlobValue (key : Text) (view : Buffer) : WritesDirectory (.insertBlobValue key view)

/-- The call that names an admin. -/
inductive NamesAdmin : DaoCall → Prop where
  | insertAdminPublicKey (admin : Author) (pubKey : PubKey) :
      NamesAdmin (.insertAdminPublicKey admin pubKey)

end DaoCall

/-- A program that returns at once. -/
def pureClient (value : α) : Through allowed (pure value) := .returns value

/-- A program that stops at once. -/
def stopClient (reason : Stop) : Through allowed (stop reason : Program α) := .stops reason

/-- A single call. -/
def DaoCall.client (call : DaoCall) (permitted : allowed call) : Through allowed call.program :=
  .call call permitted

/-- An assertion looks at the build. -/
def replikonAssertClient (condition : Bool) : Through allowed (replikonAssert condition) where
  client := .looks fun setting =>
    if condition || setting.ndebug then .returns () else .stops .assertion
  asks := by
    intro setting
    dsimp only
    split
    · trivial
    · trivial
  same := by
    funext replica
    have tested : replica.setting.ndebug = replica.ndebug := rfl
    change (if condition || replica.setting.ndebug then Client.returns () else _ :
      DaoClient Unit).program replica = replikonAssert condition replica
    rw [replikonAssert, tested]
    split
    · rfl
    · rfl

/-- A value that is not there is not defined. -/
def valueOfClient : (result : Expected α) → Through allowed (valueOf result)
  | .ok value => pureClient value
  | .error _ => (replikonAssertClient false).bind fun _ => stopClient .undefined

variable {Signature T : Type} (sodium : Sodium Signature) (layouts : KeysCrdt.Layouts)

namespace SecurityProvider

variable (serialize : T → Buffer)

/-- `sign` looks at the private key. -/
def signClient (value : T) : Through allowed (sign sodium serialize value) :=
  .looks fun setting => pureClient (sodium.signDetached (serialize value) setting.selfPrivKey)

/-- `isValid` asks for the key of the author. -/
def isValidClient (asked : ∀ author, allowed (.getUserInfo author)) (signature : Signature)
    (author : Text) (value : T) :
    Through allowed (isValid sodium serialize signature author value) :=
  (DaoCall.client (.getUserInfo author) (asked author)).bind fun
    | .ok (some _) => pureClient _
    | .ok none => pureClient false
    | .error _ => pureClient false

end SecurityProvider

namespace Log

open DaoCall

def getHeaderClient : Through TellsHeader getHeader :=
  (DaoCall.client .getHeaders .getHeaders).bind valueOfClient

def intervalsDifferenceClient (a b : List Interval) : Through allowed (intervalsDifference a b) :=
  (replikonAssertClient _).bind fun _ => (replikonAssertClient _).bind fun _ => pureClient _

def requestEntriesClient (localHeader : Header) :
    (entries : List (Text × List Interval)) → (result : Request) →
      Through allowed (requestEntries localHeader entries result)
  | [], result => pureClient result
  | (_, _) :: rest, _ =>
    (intervalsDifferenceClient _ _).bind fun _ => requestEntriesClient localHeader rest _

def getRequestClient (header : Header) : Through TellsHeader (getRequest header) :=
  (DaoCall.client .getHeaders .getHeaders).bind fun found =>
    (valueOfClient found).bind fun localHeader => requestEntriesClient localHeader _ _

def copySignatureClient (sign : Buffer) : Through allowed (copySignature sodium sign) where
  client := match sodium.ofBytes sign with
    | some signature => .returns signature
    | none => .stops .undefined
  asks := by
    split
    · trivial
    · trivial
  same := by
    unfold copySignature
    cases sodium.ofBytes sign with
    | some signature => rfl
    | none => rfl

def convertClient : (msgs : List SignedChatMeesage) → Through allowed (convert sodium msgs)
  | [] => pureClient []
  | signedMsg :: rest =>
    (copySignatureClient sodium signedMsg.sign).bind fun _ =>
      (convertClient rest).bind fun _ => pureClient _

def updateEntriesClient : (entries : List (Text × List Interval)) → (update : Update Signature) →
    Through HandsOut (updateEntries sodium entries update)
  | [], update => pureClient update
  | (k, v) :: rest, update =>
    (DaoCall.client (.getAllMessages k v) (.getAllMessages k v)).bind fun
      | .error _ => updateEntriesClient rest update
      | .ok msgs => (convertClient sodium msgs).bind fun _ => updateEntriesClient rest _

def getUpdateClient (request : Request) : Through HandsOut (getUpdate sodium request) :=
  updateEntriesClient sodium _ _

def mergeMessagesClient (k : Text) : (v : List (Signature × ChatMessage)) → (merged : Bool) →
    Through TakesIn (mergeMessages sodium k v merged)
  | [], merged => pureClient merged
  | (sig, m) :: rest, merged =>
    (SecurityProvider.isValidClient sodium Serde.chatMessage .getUserInfo sig k m).bind fun _ =>
      .ite
        ((DaoCall.client (.insertMessage _) (.insertMessage _)).bind fun _ =>
          mergeMessagesClient k rest _)
        (mergeMessagesClient k rest merged)

def mergeEntriesClient : (entries : List (Text × List (Signature × ChatMessage))) →
    (merged : Bool) → Through TakesIn (mergeEntries sodium entries merged)
  | [], merged => pureClient merged
  | (k, v) :: rest, merged =>
    (mergeMessagesClient sodium k v merged).bind fun merged => mergeEntriesClient rest merged

def mergeClient (update : Update Signature) : Through TakesIn (merge sodium update) :=
  (mergeEntriesClient sodium _ _).bind fun _ => pureClient _

def addNewMessageClient (author : Author) (v : ChatMessage) :
    Through TakesIn (addNewMessage sodium author v) :=
  (DaoCall.client (.getNextLamport author) (.getNextLamport author)).bind fun next =>
    (valueOfClient next).bind fun _ =>
      (SecurityProvider.signClient sodium Serde.chatMessage _).bind fun _ =>
        (DaoCall.client (.insertMessage _) (.insertMessage _)).bind fun _ => pureClient ()

end Log

namespace KeysCrdt

open DaoCall

def getAdminClient : Through ReadsDirectory getAdmin :=
  (DaoCall.client .getAdminsUserInfo .getAdminsUserInfo).bind fun found =>
    (valueOfClient found).bind fun value => (replikonAssertClient _).bind fun _ =>
      match value.getLast? with
      | some info => pureClient info.author
      | none => stopClient .undefined

def getPersistedVersionClient : Through ReadsDirectory getPersistedVersion :=
  (DaoCall.client (.getIntegerValue versionKey) (.getIntegerValue _)).bind fun found =>
    (valueOfClient found).bind fun
      | some stored => pureClient stored.toUInt64.toUInt16
      | none =>
        (DaoCall.client (.insertIntegerValue versionKey 0) (.insertIntegerValue _ _)).bind fun _ =>
          (replikonAssertClient _).bind fun _ => pureClient 0

def getPersistedSignatureClient : Through ReadsDirectory (getPersistedSignature sodium) :=
  (DaoCall.client (.getBlobValue signKey) (.getBlobValue _)).bind fun found =>
    (valueOfClient found).bind fun
      | none => (replikonAssertClient false).bind fun _ => stopClient .undefined
      | some blob => by
        dsimp only
        exact match sodium.ofBytes blob with
          | some sign => pureClient sign
          | none => (replikonAssertClient false).bind fun _ => stopClient .undefined

def getHeaderClient : Through ReadsDirectory getHeader :=
  getAdminClient.bind fun _ => getPersistedVersionClient.bind fun _ => pureClient _

def getRequestClient (header : Header) : Through ReadsDirectory (getRequest header) :=
  getHeaderClient.bind fun _ => (replikonAssertClient _).bind fun _ => pureClient _

def getUpdateClient (request : Request) : Through ReadsDirectory (getUpdate sodium request) :=
  (DaoCall.client .getAllPublicKeys .getAllPublicKeys).bind fun found =>
    (valueOfClient found).bind fun _ => getAdminClient.bind fun _ =>
      getPersistedVersionClient.bind fun _ => (replikonAssertClient _).bind fun _ =>
        (getPersistedSignatureClient sodium).bind fun _ => pureClient _

def insertPublicKeysClient : (pubKeys : PubKeyMap) →
    Through WritesDirectory (insertPublicKeys pubKeys)
  | [] => pureClient ()
  | (author, pubKey) :: rest =>
    (DaoCall.client (.insertPublicKey author pubKey) (.insertPublicKey _ _)).bind fun _ =>
      insertPublicKeysClient rest

/-- The version is stored by the call that reading it may make. -/
def storeVersionClient (version : Int64) :
    Through WritesDirectory (KeyValueDao.insertIntegerValue versionKey version) :=
  DaoCall.client (.insertIntegerValue versionKey version) (.reads _ (.insertIntegerValue _ _))

def storeSignatureClient (sign : Buffer) :
    Through WritesDirectory (KeyValueDao.insertBlobValue signKey sign) :=
  DaoCall.client (.insertBlobValue signKey sign) (.insertBlobValue _ _)

def mergeClient (update : Update Signature) :
    Through WritesDirectory (merge sodium layouts update) :=
  (getHeaderClient.widen .reads).bind fun _ => (replikonAssertClient _).bind fun _ =>
    .ite (pureClient _)
      ((SecurityProvider.isValidClient sodium (toCheck layouts) .getUserInfo _ _ _).bind fun _ =>
        .ite
          ((storeVersionClient _).bind fun _ => (storeSignatureClient _).bind fun _ =>
            (insertPublicKeysClient _).bind fun _ => pureClient _)
          (pureClient _))

def addKeyClient (author : Author) (pubKey : PubKey) :
    Through WritesDirectory (addKey sodium layouts author pubKey) :=
  (DaoCall.client (.insertPublicKey author pubKey) (.insertPublicKey _ _)).bind fun _ =>
    (getPersistedVersionClient.widen .reads).bind fun _ => (storeVersionClient _).bind fun _ =>
      (replikonAssertClient _).bind fun _ =>
        (DaoCall.client .getAllPublicKeys (.reads _ .getAllPublicKeys)).bind fun found =>
          (valueOfClient found).bind fun _ =>
            (SecurityProvider.signClient sodium (Serde.vector layouts.tuple) _).bind fun _ =>
              (storeSignatureClient _).bind fun _ => pureClient ()

def setAdminClient (admin : Author) (pubKey : PubKey) :
    Through NamesAdmin (setAdmin admin pubKey) :=
  (DaoCall.client (.insertAdminPublicKey admin pubKey) (.insertAdminPublicKey _ _)).bind fun _ =>
    replikonAssertClient _

end KeysCrdt

namespace Instance

/-- The client that a call of an instance is. -/
def Call.client : (call : Call Signature) → Through (fun _ => True) (call.program sodium layouts)
  | .logHeader => .bind (Log.getHeaderClient.widen fun _ _ => trivial) fun _ => pureClient _
  | .logRequest header =>
    .bind ((Log.getRequestClient header).widen fun _ _ => trivial) fun _ => pureClient _
  | .logUpdate request =>
    .bind ((Log.getUpdateClient sodium request).widen fun _ _ => trivial) fun _ => pureClient _
  | .logMerge update =>
    .bind ((Log.mergeClient sodium update).widen fun _ _ => trivial) fun _ => pureClient _
  | .addNewMessage author v =>
    .bind ((Log.addNewMessageClient sodium author v).widen fun _ _ => trivial) fun _ =>
      pureClient _
  | .keysHeader => .bind (KeysCrdt.getHeaderClient.widen fun _ _ => trivial) fun _ => pureClient _
  | .keysRequest header =>
    .bind ((KeysCrdt.getRequestClient header).widen fun _ _ => trivial) fun _ => pureClient _
  | .keysUpdate request =>
    .bind ((KeysCrdt.getUpdateClient sodium request).widen fun _ _ => trivial) fun _ => pureClient _
  | .keysMerge update =>
    .bind ((KeysCrdt.mergeClient sodium layouts update).widen fun _ _ => trivial) fun _ =>
      pureClient _
  | .addKey author pubKey =>
    .bind ((KeysCrdt.addKeyClient sodium layouts author pubKey).widen fun _ _ => trivial) fun _ =>
      pureClient _
  | .setAdmin admin pubKey =>
    .bind ((KeysCrdt.setAdminClient admin pubKey).widen fun _ _ => trivial) fun _ => pureClient _

end Instance

end Replikon
