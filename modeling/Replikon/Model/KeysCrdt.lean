import Replikon.Model.SecurityProvider
import Replikon.Model.Serde

/-!
# `crdt::KeysCrdt` and `Instance::setAdmin`

The replicated key directory. The admin signs in `addKey` and every replica
checks in `merge`; the two payloads are built separately, from element types
whose memory layouts are parameters of their own.
-/

namespace Replikon.KeysCrdt

/-- `KEYS_CRDT_VERSION_KEY`. -/
def versionKey : Text := ascii "keys_crdt_version"

/-- `KEYS_CRDT_SIGN_KEY`. -/
def signKey : Text := ascii "keys_crdt_sign"

abbrev Version := UInt16

abbrev PubKeyMap := List (Author × PubKey)

/-- `KeysCrdt::Header`, which is also `KeysCrdt::Request`. -/
abbrev Header := Author × Version

abbrev Request := Header

/-- `KeysCrdt::Update`. -/
structure Update (Signature : Type) where
  author : Author
  version : Version
  pubKeys : PubKeyMap
  sign : Signature

/-- The memory layouts of `std::tuple<Author, PubKey>`, whose vector `addKey`
signs, and of `std::pair<Author, PubKey>`, whose vector `merge` checks. -/
structure Layouts where
  tuple : Serde.ObjectLayout (Author × PubKey)
  pair : Serde.ObjectLayout (Author × PubKey)

/-- The bytes of `std::tie(author, version, pub_keys)`. -/
def toCheck (layouts : Layouts) (value : Author × Version × PubKeyMap) : Buffer :=
  Serde.tuple [Serde.string value.1, Serde.arithmetic 2 value.2.1.toNat,
    Serde.vector layouts.pair value.2.2]

variable {Signature : Type} (sodium : Sodium Signature) (layouts : Layouts)

def getAdmin : Program Author := do
  let value ← valueOf (← SecurityDao.getAdminsUserInfo)
  replikonAssert (value.length == 1)
  match value.getLast? with
  | some info => pure info.author
  | none => stop .undefined

def getPersistedVersion : Program Version := do
  let value ← valueOf (← KeyValueDao.getIntegerValue versionKey)
  match value with
  | some stored => pure stored.toUInt64.toUInt16
  | none =>
    let res ← KeyValueDao.insertIntegerValue versionKey 0
    replikonAssert (res == .ok)
    pure 0

def getPersistedSignature : Program Signature := do
  let value ← valueOf (← KeyValueDao.getBlobValue signKey)
  match value with
  | none => do
    replikonAssert false
    stop .undefined
  | some blob =>
    match sodium.ofBytes blob with
    | some sign => pure sign
    | none => do
      replikonAssert false
      stop .undefined

/-- C++ leaves open in which order the arguments of `std::make_tuple` are evaluated.
Here it is from left to right; g++ reads the version first. -/
def getHeader : Program Header := do
  let admin ← getAdmin
  let version ← getPersistedVersion
  pure (admin, version)

def getRequest (header : Header) : Program (Option Request) := do
  let (localAuthor, localVersion) ← getHeader
  replikonAssert (localAuthor == header.1)
  pure (if header.2 ≤ localVersion then none else some header)

def getUpdate (request : Request) : Program (Update Signature) := do
  let pairs ← valueOf (← SecurityDao.getAllPublicKeys)
  let admin ← getAdmin
  let version ← getPersistedVersion
  replikonAssert (request.1 == admin)
  let sign ← getPersistedSignature sodium
  pure ⟨admin, version, pairs, sign⟩

/-- The loop of `merge` over the keys; the results of the inserts are ignored. -/
def insertPublicKeys : PubKeyMap → Program Unit
  | [] => pure ()
  | (author, pubKey) :: rest => do
    let _ ← SecurityDao.insertPublicKey author pubKey
    insertPublicKeys rest

def merge (update : Update Signature) : Program MergeStatus := do
  let (localAuthor, localVersion) ← getHeader
  replikonAssert (localAuthor == update.author)
  if update.version ≤ localVersion then pure .skipped
  else
    if ← SecurityProvider.isValid sodium (toCheck layouts) update.sign update.author
        (update.author, update.version, update.pubKeys) then
      let _ ← KeyValueDao.insertIntegerValue versionKey update.version.toUInt64.toInt64
      let _ ← KeyValueDao.insertBlobValue signKey (sodium.toBytes update.sign)
      insertPublicKeys update.pubKeys
      pure .merged
    else pure .skipped

def addKey (author : Author) (pubKey : PubKey) : Program Unit := do
  let _ ← SecurityDao.insertPublicKey author pubKey
  let version ← getPersistedVersion
  let version := version + 1
  let res ← KeyValueDao.insertIntegerValue versionKey version.toUInt64.toInt64
  replikonAssert (res == .ok)
  let pairs ← valueOf (← SecurityDao.getAllPublicKeys)
  let sign ← SecurityProvider.sign sodium (Serde.vector layouts.tuple) pairs
  let _ ← KeyValueDao.insertBlobValue signKey (sodium.toBytes sign)
  pure ()

/-- `Instance::setAdmin`. -/
def setAdmin (admin : Author) (pubKey : PubKey) : Program Unit := do
  let res ← SecurityDao.insertAdminPublicKey admin pubKey
  replikonAssert (res == .ok)

/-- What a complete pull of the key directory leaves. There is no status when
the puller asked for nothing. -/
structure Pulled where
  status : Option MergeStatus
  source : Replica
  puller : Replica

/-- One complete pull, `C.merge(R.getUpdate(C.getRequest(R.getHeader())))`, or
the reason for which one of the two replicas stopped. -/
def pull (source puller : Replica) : Except Stop Pulled :=
  match getHeader.run source with
  | .error reason _ => .error reason
  | .ok header source =>
    match (getRequest header).run puller with
    | .error reason _ => .error reason
    | .ok none puller => .ok ⟨none, source, puller⟩
    | .ok (some request) puller =>
      match (getUpdate sodium request).run source with
      | .error reason _ => .error reason
      | .ok update source =>
        match (merge sodium layouts update).run puller with
        | .error reason _ => .error reason
        | .ok status puller => .ok ⟨some status, source, puller⟩

/-- A layout of an author and a key: eight bytes of address, the size, sixteen
bytes of characters and the key. -/
def sampleLayout : Serde.ObjectLayout (Author × PubKey) where
  sizeof := 64
  image element := List.replicate 8 0 ++ Serde.arithmetic 8 element.1.length ++
    (element.1 ++ List.replicate 16 0).take 16 ++ element.2.toList
  sizeof_pos := by decide
  image_length element := by
    simp [Serde.arithmetic, Foundation.ByteFraming.little_endian_length]

/-- Tuples and pairs that are laid out alike. -/
def sampleLayouts : Layouts := ⟨sampleLayout, sampleLayout⟩

end Replikon.KeysCrdt
