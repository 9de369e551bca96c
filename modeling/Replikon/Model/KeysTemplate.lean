import Replikon.Model.KeysCrdt

/-!
# `crdt::KeysCrdt` as a template

`KeysCrdt` is a template over its security provider, of which it uses the
signature type, `sign` and `isValid`. Both are `const` methods: on a database
that does not fail they return and change nothing. The instance for
`ED25519SecurityProvider` is the key directory as it is deployed.
-/

namespace Replikon.KeysCrdt

/-- What `KeysCrdt` uses of its `SecurityProvider`: a `Signature` with its bytes,
`sign` for the list that `addKey` reads and `isValid` for the tuple that `merge`
ties together. -/
structure Provider (Signature : Type) where
  sign : List (Author × PubKey) → Program Signature
  isValid : Signature → Author → Author × Version × PubKeyMap → Program Bool
  toBytes : Signature → Buffer
  ofBytes : Buffer → Option Signature
  of_to_bytes : ∀ signature, ofBytes (toBytes signature) = some signature
  sign_const : ∀ replica : Replica, replica.Reliable → ∀ pairs,
    ∃ signature, (sign pairs).run replica = .ok signature replica
  is_valid_const : ∀ replica : Replica, replica.Reliable → ∀ signature author value,
    ∃ valid, (isValid signature author value).run replica = .ok valid replica

namespace Provider

variable {Signature : Type} (provider : Provider Signature)

/-- `getPersistedSignature`. -/
def getPersistedSignature : Program Signature := do
  let value ← valueOf (← KeyValueDao.getBlobValue signKey)
  match value with
  | none => do
    replikonAssert false
    stop .undefined
  | some blob =>
    match provider.ofBytes blob with
    | some sign => pure sign
    | none => do
      replikonAssert false
      stop .undefined

/-- `getUpdate`. -/
def getUpdate (request : Request) : Program (Update Signature) := do
  let pairs ← valueOf (← SecurityDao.getAllPublicKeys)
  let admin ← getAdmin
  let version ← getPersistedVersion
  replikonAssert (request.1 == admin)
  let sign ← provider.getPersistedSignature
  pure ⟨admin, version, pairs, sign⟩

/-- `merge`. -/
def merge (update : Update Signature) : Program MergeStatus := do
  let (localAuthor, localVersion) ← getHeader
  replikonAssert (localAuthor == update.author)
  if update.version ≤ localVersion then pure .skipped
  else
    if ← provider.isValid update.sign update.author
        (update.author, update.version, update.pubKeys) then
      let _ ← KeyValueDao.insertIntegerValue versionKey update.version.toUInt64.toInt64
      let _ ← KeyValueDao.insertBlobValue signKey (provider.toBytes update.sign)
      insertPublicKeys update.pubKeys
      pure .merged
    else pure .skipped

/-- `addKey`. -/
def addKey (author : Author) (pubKey : PubKey) : Program Unit := do
  let _ ← SecurityDao.insertPublicKey author pubKey
  let version ← getPersistedVersion
  let version := version + 1
  let res ← KeyValueDao.insertIntegerValue versionKey version.toUInt64.toInt64
  replikonAssert (res == .ok)
  let pairs ← valueOf (← SecurityDao.getAllPublicKeys)
  let sign ← provider.sign pairs
  let _ ← KeyValueDao.insertBlobValue signKey (provider.toBytes sign)
  pure ()

end Provider

section Ed25519

variable {Signature : Type} (sodium : Sodium Signature) (layouts : Layouts)

/-- `KeysCrdt<sec::ED25519SecurityProvider>`. -/
def ed25519 : Provider Signature where
  sign := SecurityProvider.sign sodium (Serde.vector layouts.tuple)
  isValid := SecurityProvider.isValid sodium (toCheck layouts)
  toBytes := sodium.toBytes
  ofBytes := sodium.ofBytes
  of_to_bytes := sodium.of_to_bytes
  sign_const replica _ pairs := ⟨_, SecurityProvider.sign_run replica pairs⟩
  is_valid_const _ reliable signature author value :=
    ⟨_, SecurityProvider.is_valid_run reliable signature author value⟩

theorem ed25519_get_update : (ed25519 sodium layouts).getUpdate = getUpdate sodium := rfl

theorem ed25519_merge : (ed25519 sodium layouts).merge = merge sodium layouts := rfl

end Ed25519

end Replikon.KeysCrdt
