import Replikon.Foundation.Ensures
import Replikon.Model.KeysTemplate
import Replikon.Refinement.Authenticity

/-!
# What the operations of `KeysCrdt` do to the directory

The directory of a replica is its key table together with the version and the
signature in `key_value`. Reading the version for the first time writes a zero,
which reads the same. `merge` makes three separate checks; only the check of the
author is an assertion, and with NDEBUG it is not made.
-/

namespace Replikon

open Foundation

/-- After a replacement, the key has the new value and the others are unchanged. -/
theorem KeyValueTable.find_insert_or_replace (table : KeyValueTable) (key query : Text)
    (value : Sql.Value) :
    (table.insertOrReplace key value).find query =
      if query = key then some value else table.find query := by
  rw [KeyValueTable.find, KeyValueTable.insertOrReplace, List.find?_append]
  by_cases same : query = key
  · have absent : (table.rows.filter fun row => row.key ≠ key).find?
        (fun row => row.key = query) = none := by
      apply List.find?_eq_none.mpr
      intro row member
      have other := (List.mem_filter.mp member).2
      simpa [same] using other
    rw [absent, if_pos same]
    simp [same]
  · have kept : (table.rows.filter fun row => row.key ≠ key).find?
        (fun row => row.key = query) = table.rows.find? (fun row => row.key = query) := by
      rw [List.find?_filter]
      congr 1
      funext row
      by_cases own : row.key = query
      · simp [own, same]
      · simp [own]
    have other : ¬ key = query := fun equal => same equal.symm
    rw [kept, if_neg same, KeyValueTable.find]
    cases table.rows.find? (fun row => row.key = query) <;> simp [other]

namespace KeysCrdt

/-- The version that `getPersistedVersion` reads. -/
def persistedVersion (replica : Replica) : Version :=
  match replica.keyValue.find versionKey with
  | some value => value.columnInt64.toUInt64.toUInt16
  | none => 0

/-- The bytes that `getPersistedSignature` reads. -/
def persistedSignature (replica : Replica) : Option Buffer :=
  (replica.keyValue.find signKey).map (·.columnBlobAsBuffer)

/-- The replica after its version was read: a missing version is stored as zero. -/
def settled (replica : Replica) : Replica :=
  match replica.keyValue.find versionKey with
  | some _ => replica
  | none =>
    { replica with keyValue := replica.keyValue.insertOrReplace versionKey (.integer 0) }

/-- The directory of a replica: version, signature and key table. -/
def directory (replica : Replica) : Version × Option Buffer × List SecurityRow :=
  (persistedVersion replica, persistedSignature replica, replica.security.rows)

section Settled

variable (replica : Replica)

/-- Nothing but the key-value table changes. -/
theorem settled_eq : settled replica = { replica with keyValue := (settled replica).keyValue } := by
  unfold settled
  cases replica.keyValue.find versionKey <;> rfl

@[simp] theorem settled_script : (settled replica).script = replica.script := by
  rw [settled_eq]

@[simp] theorem settled_ndebug : (settled replica).ndebug = replica.ndebug := by
  rw [settled_eq]

@[simp] theorem settled_security : (settled replica).security = replica.security := by
  rw [settled_eq]

@[simp] theorem settled_priv_key : (settled replica).selfPrivKey = replica.selfPrivKey := by
  rw [settled_eq]

@[simp] theorem settled_messages : (settled replica).messages = replica.messages := by
  rw [settled_eq]

/-- Reading the version leaves the version as it reads. -/
@[simp] theorem settled_version : persistedVersion (settled replica) = persistedVersion replica := by
  cases present : replica.keyValue.find versionKey with
  | some value => simp [settled, present]
  | none =>
    simp only [settled, present, persistedVersion, KeyValueTable.find_insert_or_replace]
    rfl

@[simp] theorem settled_signature :
    persistedSignature (settled replica) = persistedSignature replica := by
  cases present : replica.keyValue.find versionKey with
  | some value => simp [settled, present]
  | none =>
    have other : ¬ signKey = versionKey := by decide
    simp [settled, present, persistedSignature, KeyValueTable.find_insert_or_replace, other]

@[simp] theorem settled_directory : directory (settled replica) = directory replica := by
  simp [directory]

variable {replica}

theorem settled_reliable (reliable : replica.Reliable) : (settled replica).Reliable := by
  rw [Replica.Reliable, settled_script]
  exact reliable

end Settled

section Reading

variable {replica : Replica} (reliable : replica.Reliable)
include reliable

theorem get_persisted_version_run :
    getPersistedVersion.run replica = .ok (persistedVersion replica) (settled replica) := by
  rw [getPersistedVersion, KeyValueDao.getIntegerValue,
    bind_ok _ (KeyValueDao.get_value_run reliable _ _), bind_ok _ (value_of_run _)]
  cases present : replica.keyValue.find versionKey with
  | some value =>
    simp only [persistedVersion, settled, present]
    rfl
  | none =>
    simp only [persistedVersion, settled, present, Option.map_none, KeyValueDao.insertIntegerValue]
    rw [bind_ok _ (KeyValueDao.insert_value_run reliable _ _),
      bind_ok _ (assert_run (SqliteResult.ok == .ok) rfl)]
    rfl

/-- With one admin row the admin is its author as read back. -/
theorem get_admin_run (row : SecurityRow)
    (only : replica.security.rows.filter (·.isAdmin) = [row]) :
    getAdmin.run replica = .ok (cString row.author) replica := by
  rw [getAdmin, bind_ok _ (SecurityDao.get_admins_user_info_run reliable), only,
    bind_ok _ (value_of_run _),
    bind_ok _ (assert_run (([row].map SecurityDao.userInfo).length == 1) rfl)]
  rfl

end Reading

section Ensuring

variable {replica : Replica}

/-- An assertion changes nothing. -/
theorem assert_ensures (condition : Bool) :
    Ensures (replikonAssert condition) replica fun _ after => after = replica := by
  rcases assert_cases condition replica with ⟨_, passes⟩ | ⟨_, _, stops⟩
  · exact ensures_of_run () replica passes rfl
  · exact ensures_of_stop Stop.assertion replica stops

variable (reliable : replica.Reliable)
include reliable

/-- Whatever the rows, looking for the admin changes nothing: it returns an
author, fails its assertion or reads the last row of none. -/
theorem get_admin_cases :
    (∃ admin, getAdmin.run replica = .ok admin replica) ∨
      ∃ reason, getAdmin.run replica = .error reason replica := by
  rw [getAdmin, bind_ok _ (SecurityDao.get_admins_user_info_run reliable),
    bind_ok _ (value_of_run _)]
  generalize (replica.security.rows.filter (·.isAdmin)).map SecurityDao.userInfo = infos
  rcases assert_cases (infos.length == 1) replica with ⟨_, passes⟩ | ⟨_, _, stops⟩
  · rw [bind_ok _ passes]
    cases infos.getLast? with
    | none => exact .inr ⟨.undefined, rfl⟩
    | some info => exact .inl ⟨info.author, rfl⟩
  · exact .inr ⟨.assertion, bind_error _ stops⟩

theorem get_admin_ensures : Ensures getAdmin replica fun _ after => after = replica := by
  rcases get_admin_cases reliable with ⟨admin, ran⟩ | ⟨reason, ran⟩
  · exact ensures_of_run admin replica ran rfl
  · exact ensures_of_stop reason replica ran

/-- The header holds the version as it reads. -/
theorem get_header_ensures : Ensures getHeader replica fun header after =>
    header.2 = persistedVersion replica ∧ after = settled replica := by
  refine (get_admin_ensures reliable).bind ?_
  rintro admin after rfl
  exact ensures_of_run _ _ (by
    rw [bind_ok _ (get_persisted_version_run reliable)]
    rfl) ⟨rfl, rfl⟩

end Ensuring

section Offering

variable {Signature : Type} {replica : Replica}

/-- A failed lookup that an assertion guards stops either way. -/
theorem unguarded_run {α : Type} : (do
    replikonAssert false
    stop .undefined : Program α).run replica =
      .error (if replica.ndebug then .undefined else .assertion) replica := by
  cases build : replica.ndebug with
  | false => exact bind_error _ (assert_stops_run false rfl build)
  | true =>
    rw [bind_ok _ (assert_unmade_run false build)]
    rfl

variable (reliable : replica.Reliable)
include reliable

/-- Reading the signature changes nothing: it returns the one that is stored, or stops. -/
theorem template_get_persisted_signature_cases (provider : Provider Signature) :
    (∃ sign bytes, persistedSignature replica = some bytes ∧ provider.ofBytes bytes = some sign ∧
      provider.getPersistedSignature.run replica = .ok sign replica) ∨
        ∃ reason, provider.getPersistedSignature.run replica = .error reason replica := by
  have read : (KeyValueDao.getBlobValue signKey).run replica =
      .ok (.ok (persistedSignature replica)) replica := KeyValueDao.get_value_run reliable _ _
  rw [Provider.getPersistedSignature, bind_ok _ read, bind_ok _ (value_of_run _)]
  cases stored : persistedSignature replica with
  | none => exact .inr ⟨_, unguarded_run⟩
  | some bytes =>
    cases reading : provider.ofBytes bytes with
    | none =>
      simp only [reading]
      exact .inr ⟨_, unguarded_run⟩
    | some sign =>
      simp only [reading]
      exact .inl ⟨sign, bytes, rfl, reading, rfl⟩

/-- An update is the directory as it is stored. -/
structure Offers (provider : Provider Signature) (replica : Replica) (update : Update Signature) :
    Prop where
  admin : getAdmin.run replica = .ok update.author replica
  version : update.version = persistedVersion replica
  pubKeys : update.pubKeys = replica.security.rows.map SecurityDao.publicKey
  sign : ∃ bytes, persistedSignature replica = some bytes ∧ provider.ofBytes bytes = some update.sign

/-- A request is answered with the directory as it is stored, or stops. A
missing version may be stored either way. -/
theorem template_get_update_cases (provider : Provider Signature) (request : Request) :
    (∃ update, Offers provider replica update ∧
      (provider.getUpdate request).run replica = .ok update (settled replica)) ∨
        ∃ reason after, (after = replica ∨ after = settled replica) ∧
          (provider.getUpdate request).run replica = .error reason after := by
  rw [Provider.getUpdate, bind_ok _ (SecurityDao.get_all_public_keys_run reliable),
    bind_ok _ (value_of_run _)]
  rcases get_admin_cases reliable with ⟨admin, known⟩ | ⟨reason, unknown⟩
  · rw [bind_ok _ known, bind_ok _ (get_persisted_version_run reliable)]
    rcases assert_cases (request.1 == admin) (settled replica) with ⟨_, passes⟩ | ⟨_, _, stops⟩
    · rw [bind_ok _ passes]
      rcases template_get_persisted_signature_cases (settled_reliable reliable) provider with
        ⟨sign, bytes, stored, reading, ran⟩ | ⟨reason, stops⟩
      · rw [settled_signature] at stored
        rw [bind_ok _ ran]
        exact .inl ⟨_, ⟨known, rfl, rfl, bytes, stored, reading⟩, rfl⟩
      · exact .inr ⟨reason, _, .inr rfl, bind_error _ stops⟩
    · exact .inr ⟨_, _, .inr rfl, bind_error _ stops⟩
  · exact .inr ⟨reason, _, .inl rfl, bind_error _ unknown⟩

end Offering

variable {Signature : Type} (sodium : Sodium Signature) (layouts : Layouts)

/-- The check of an update: its signature over author, version and keys, under
the key registered for the author that it names. -/
def checked (replica : Replica) (update : Update Signature) : Bool :=
  replica.verifies sodium update.author
    (toCheck layouts (update.author, update.version, update.pubKeys)) update.sign

/-- The replica after an update was taken in, whatever the provider. -/
def Provider.installed (provider : Provider Signature) (replica : Replica)
    (update : Update Signature) : Replica :=
  { replica with
    keyValue := (replica.keyValue.insertOrReplace versionKey
      (.integer update.version.toUInt64.toInt64)).insertOrReplace signKey
        (.blob (provider.toBytes update.sign))
    security := update.pubKeys.foldl
      (fun table entry => table.insertPublicOnly entry.1 entry.2) replica.security
    stack := replica.stack.drop update.pubKeys.length }

/-- The replica after an update was taken in. -/
def installed (replica : Replica) (update : Update Signature) : Replica :=
  { replica with
    keyValue := (replica.keyValue.insertOrReplace versionKey
      (.integer update.version.toUInt64.toInt64)).insertOrReplace signKey
        (.blob (sodium.toBytes update.sign))
    security := update.pubKeys.foldl
      (fun table entry => table.insertPublicOnly entry.1 entry.2) replica.security
    stack := replica.stack.drop update.pubKeys.length }

section Installed

variable (provider : Provider Signature) (replica : Replica) (update : Update Signature)

/-- The version of an update is the version read afterwards. -/
@[simp] theorem provider_installed_version :
    persistedVersion (provider.installed replica update) = update.version := by
  have other : ¬ versionKey = signKey := by decide
  simp [persistedVersion, Provider.installed, KeyValueTable.find_insert_or_replace, other,
    Sql.Value.columnInt64]

@[simp] theorem provider_installed_signature :
    persistedSignature (provider.installed replica update) =
      some (provider.toBytes update.sign) := by
  simp [persistedSignature, Provider.installed, KeyValueTable.find_insert_or_replace,
    Sql.Value.columnBlobAsBuffer, Sql.Value.bytes]

theorem installed_version :
    persistedVersion (installed sodium replica update) = update.version :=
  -- the layouts play no part in what is stored
  provider_installed_version (ed25519 sodium sampleLayouts) replica update

end Installed

/-- The replica after `addKey` wrote the key. -/
def keyInserted (replica : Replica) (author : Author) (pubKey : PubKey) : Replica :=
  { replica with
    security := replica.security.insertPublicOnly author pubKey
    stack := replica.stack.tail }

/-- The replica after the next version was written. -/
def versionRaised (replica : Replica) : Replica :=
  { settled replica with
    keyValue := (settled replica).keyValue.insertOrReplace versionKey
      (.integer (persistedVersion replica + 1).toUInt64.toInt64) }

/-- The replica after `addKey`, with the bytes of the signature it made. -/
def keyAdded (bytes : Buffer) (replica : Replica) (author : Author) (pubKey : PubKey) : Replica :=
  { versionRaised (keyInserted replica author pubKey) with
    keyValue := (versionRaised (keyInserted replica author pubKey)).keyValue.insertOrReplace signKey
      (.blob bytes) }

section Added

variable (bytes : Buffer) (replica : Replica) (author : Author) (pubKey : PubKey)

@[simp] theorem version_raised_security : (versionRaised replica).security = replica.security := by
  simp [versionRaised]

@[simp] theorem key_added_security : (keyAdded bytes replica author pubKey).security =
    replica.security.insertPublicOnly author pubKey := by
  simp [keyAdded, keyInserted]

@[simp] theorem key_added_ndebug : (keyAdded bytes replica author pubKey).ndebug =
    replica.ndebug := by
  simp [keyAdded, versionRaised, keyInserted]

@[simp] theorem key_added_messages : (keyAdded bytes replica author pubKey).messages =
    replica.messages := by
  simp [keyAdded, versionRaised, keyInserted]

/-- `addKey` counts the version up, in sixteen bits. -/
@[simp] theorem key_added_version :
    persistedVersion (keyAdded bytes replica author pubKey) = persistedVersion replica + 1 := by
  have other : ¬ versionKey = signKey := by decide
  have stored : (keyAdded bytes replica author pubKey).keyValue.find versionKey =
      some (.integer (persistedVersion replica + 1).toUInt64.toInt64) := by
    simp only [keyAdded, versionRaised, KeyValueTable.find_insert_or_replace, other, if_false,
      if_true]
    rfl
  have readBack : ∀ version : Version,
      (Sql.Value.integer version.toUInt64.toInt64).columnInt64.toUInt64.toUInt16 = version := by
    intro version
    simp [Sql.Value.columnInt64]
  conv_lhs => rw [persistedVersion, stored]
  exact readBack _

@[simp] theorem key_added_signature :
    persistedSignature (keyAdded bytes replica author pubKey) = some bytes := by
  simp [persistedSignature, keyAdded, KeyValueTable.find_insert_or_replace,
    Sql.Value.columnBlobAsBuffer, Sql.Value.bytes]

variable {replica}

theorem key_added_reliable (reliable : replica.Reliable) :
    (keyAdded bytes replica author pubKey).Reliable := by
  have inserted : (keyInserted replica author pubKey).Reliable := reliable
  exact settled_reliable inserted

end Added

section Merging

variable {sodium layouts} {replica : Replica}

/-- Without an admin `merge` stops where it looks for one. -/
theorem template_merge_unknown_run (provider : Provider Signature) {update : Update Signature}
    {reason : Stop} {after : Replica} (unknown : getAdmin.run replica = .error reason after) :
    (provider.merge update).run replica = .error reason after := by
  have headerStops : getHeader.run replica = .error reason after := bind_error _ unknown
  exact bind_error _ headerStops

variable (reliable : replica.Reliable)
include reliable

/-- All keys are upserted in order. -/
theorem insert_public_keys_run (pubKeys : PubKeyMap) :
    (insertPublicKeys pubKeys).run replica =
      .ok () { replica with
        security := pubKeys.foldl
          (fun table entry => table.insertPublicOnly entry.1 entry.2) replica.security
        stack := replica.stack.drop pubKeys.length } := by
  induction pubKeys generalizing replica with
  | nil => rfl
  | cons entry rest inductionHypothesis =>
    let inserted : Replica := { replica with
      security := replica.security.insertPublicOnly entry.1 entry.2
      stack := replica.stack.tail }
    have insertedReliable : inserted.Reliable := reliable
    rw [insertPublicKeys, SecurityDao.insertPublicKey,
      bind_ok _ (SecurityDao.insert_key_run reliable _ _ _)]
    change (insertPublicKeys rest).run inserted = _
    rw [inductionHypothesis insertedReliable]
    simp [inserted]

/-- The three checks of `merge`, and what follows from each, for the given
verdict of the provider. -/
theorem template_merge_run (provider : Provider Signature) {admin : Author}
    (known : getAdmin.run replica = .ok admin replica) (update : Update Signature) (valid : Bool)
    (verdict : (provider.isValid update.sign update.author
      (update.author, update.version, update.pubKeys)).run (settled replica) =
        .ok valid (settled replica)) :
    (provider.merge update).run replica =
      if admin ≠ update.author ∧ replica.ndebug = false then .error .assertion (settled replica)
      else if update.version ≤ persistedVersion replica then .ok .skipped (settled replica)
      else if valid then .ok .merged (provider.installed (settled replica) update)
      else .ok .skipped (settled replica) := by
  have header : getHeader.run replica = .ok (admin, persistedVersion replica) (settled replica) := by
    rw [getHeader, bind_ok _ known, bind_ok _ (get_persisted_version_run reliable)]
    rfl
  have settledReliable := settled_reliable reliable
  rw [Provider.merge, bind_ok _ header]
  simp only
  by_cases stops : admin ≠ update.author ∧ replica.ndebug = false
  · rw [if_pos stops]
    exact bind_error _ (assert_stops_run _ (by simpa using stops.1) (by simp [stops.2]))
  · have passed : (replikonAssert (admin == update.author)).run (settled replica) =
        .ok () (settled replica) := by
      by_cases same : admin = update.author
      · exact assert_run _ (by simpa using same)
      · exact assert_unmade_run _ (by simpa [same] using stops)
    rw [if_neg stops, bind_ok _ passed]
    by_cases old : update.version ≤ persistedVersion replica
    · rw [if_pos old, if_pos old]
      rfl
    · rw [if_neg old, if_neg old, bind_ok _ verdict]
      cases valid with
      | false => rfl
      | true =>
        let versioned : Replica := { settled replica with
          keyValue := (settled replica).keyValue.insertOrReplace versionKey
            (.integer update.version.toUInt64.toInt64) }
        have versionedReliable : versioned.Reliable := settledReliable
        let signed : Replica := { versioned with
          keyValue := versioned.keyValue.insertOrReplace signKey
            (.blob (provider.toBytes update.sign)) }
        have signedReliable : signed.Reliable := settledReliable
        have storedVersion : (KeyValueDao.insertIntegerValue versionKey
            update.version.toUInt64.toInt64).run (settled replica) = .ok .ok versioned :=
          KeyValueDao.insert_value_run settledReliable _ _
        have storedSign : (KeyValueDao.insertBlobValue signKey
            (provider.toBytes update.sign)).run versioned = .ok .ok signed :=
          KeyValueDao.insert_value_run versionedReliable _ _
        rw [if_pos rfl, if_pos rfl, bind_ok _ storedVersion, bind_ok _ storedSign,
          bind_ok _ (insert_public_keys_run signedReliable _)]
        rfl

/-- The three checks of `merge` with Ed25519. -/
theorem merge_run {admin : Author} (known : getAdmin.run replica = .ok admin replica)
    (update : Update Signature) :
    (merge sodium layouts update).run replica =
      if admin ≠ update.author ∧ replica.ndebug = false then .error .assertion (settled replica)
      else if update.version ≤ persistedVersion replica then .ok .skipped (settled replica)
      else if checked sodium layouts replica update then
        .ok .merged (installed sodium (settled replica) update)
      else .ok .skipped (settled replica) := by
  have verdict := @SecurityProvider.is_valid_run Signature sodium _ (toCheck layouts) _
    (settled_reliable reliable) update.sign update.author
      (update.author, update.version, update.pubKeys)
  rw [Replica.verifies_congr sodium (settled_security replica)] at verdict
  exact template_merge_run reliable (ed25519 sodium layouts) known update _ verdict

/-- Whatever `merge` does, it leaves the replica alone but for a missing version,
or takes in a newer update. -/
theorem template_merge_leaves (provider : Provider Signature) (update : Update Signature) :
    (provider.merge update).leaves replica = replica ∨
      (provider.merge update).leaves replica = settled replica ∨
      (persistedVersion replica < update.version ∧
        (provider.merge update).leaves replica = provider.installed (settled replica) update) := by
  rw [Program.leaves]
  rcases get_admin_cases reliable with ⟨admin, known⟩ | ⟨reason, unknown⟩
  · obtain ⟨valid, verdict⟩ := provider.is_valid_const _ (settled_reliable reliable) update.sign
      update.author (update.author, update.version, update.pubKeys)
    rw [template_merge_run reliable provider known update valid verdict]
    by_cases stops : admin ≠ update.author ∧ replica.ndebug = false
    · rw [if_pos stops]
      exact .inr (.inl rfl)
    by_cases old : update.version ≤ persistedVersion replica
    · rw [if_neg stops, if_pos old]
      exact .inr (.inl rfl)
    rw [if_neg stops, if_neg old]
    cases valid with
    | false => exact .inr (.inl rfl)
    | true => exact .inr (.inr ⟨UInt16.not_le.mp old, rfl⟩)
  · rw [template_merge_unknown_run provider unknown]
    exact .inl rfl

/-- `addKey` writes the key, the next version and a signature over the list it
then reads. -/
theorem template_add_key_run (provider : Provider Signature) (author : Author) (pubKey : PubKey)
    (sign : Signature)
    (signed : (provider.sign ((keyInserted replica author pubKey).security.rows.map
      SecurityDao.publicKey)).run (versionRaised (keyInserted replica author pubKey)) =
        .ok sign (versionRaised (keyInserted replica author pubKey))) :
    (provider.addKey author pubKey).run replica =
      .ok () (keyAdded (provider.toBytes sign) replica author pubKey) := by
  have insertedReliable : (keyInserted replica author pubKey).Reliable := reliable
  have settledReliable := settled_reliable insertedReliable
  have raisedReliable : (versionRaised (keyInserted replica author pubKey)).Reliable :=
    settledReliable
  have stored : (SecurityDao.insertPublicKey author pubKey).run replica =
      .ok _ (keyInserted replica author pubKey) :=
    SecurityDao.insert_key_run reliable _ _ _
  have written : (KeyValueDao.insertIntegerValue versionKey
      (persistedVersion (keyInserted replica author pubKey) + 1).toUInt64.toInt64).run
        (settled (keyInserted replica author pubKey)) =
          .ok .ok (versionRaised (keyInserted replica author pubKey)) :=
    KeyValueDao.insert_value_run settledReliable _ _
  have listed : SecurityDao.getAllPublicKeys.run (versionRaised (keyInserted replica author pubKey)) =
      .ok (.ok ((keyInserted replica author pubKey).security.rows.map SecurityDao.publicKey))
        (versionRaised (keyInserted replica author pubKey)) := by
    rw [SecurityDao.get_all_public_keys_run raisedReliable, version_raised_security]
  have kept : (KeyValueDao.insertBlobValue signKey (provider.toBytes sign)).run
      (versionRaised (keyInserted replica author pubKey)) =
        .ok .ok (keyAdded (provider.toBytes sign) replica author pubKey) :=
    KeyValueDao.insert_value_run raisedReliable _ _
  rw [Provider.addKey, bind_ok _ stored, bind_ok _ (get_persisted_version_run insertedReliable),
    bind_ok _ written, bind_ok _ (assert_run (SqliteResult.ok == .ok) rfl), bind_ok _ listed,
    bind_ok _ (value_of_run _), bind_ok _ signed, bind_ok _ kept]
  rfl

/-- The signature that `addKey` makes with Ed25519. -/
def addedSignature (sodium : Sodium Signature) (layouts : Layouts) (replica : Replica)
    (author : Author) (pubKey : PubKey) : Signature :=
  sodium.signDetached (Serde.vector layouts.tuple
    ((keyInserted replica author pubKey).security.rows.map SecurityDao.publicKey))
      replica.selfPrivKey

theorem add_key_run (author : Author) (pubKey : PubKey) :
    (addKey sodium layouts author pubKey).run replica =
      .ok () (keyAdded (sodium.toBytes (addedSignature sodium layouts replica author pubKey))
        replica author pubKey) := by
  refine template_add_key_run reliable (ed25519 sodium layouts) author pubKey _ ?_
  have owned : (versionRaised (keyInserted replica author pubKey)).selfPrivKey =
      replica.selfPrivKey := by
    simp [versionRaised, keyInserted]
  rw [addedSignature, ← owned]
  exact SecurityProvider.sign_run _ _

/-- What `setAdmin` leaves, also when its assertion fails on a local that was
not initialised. -/
theorem set_admin_leaves (admin : Author) (pubKey : PubKey) :
    (setAdmin admin pubKey).leaves replica =
      { replica with
        security := replica.security.insertAdminPublicOnly admin pubKey
        stack := replica.stack.tail } := by
  have inserted := SecurityDao.insert_key_run reliable SecurityTable.insertAdminPublicOnly admin pubKey
  rw [Program.leaves, setAdmin, SecurityDao.insertAdminPublicKey, bind_ok _ inserted]
  cases replica.stack.head?.getD .ok <;> cases replica.ndebug <;>
    simp [EStateM.run, replikonAssert]

end Merging

/-- If merging the update changes the directory, then the update names the
admin, is signed with the admin's registered key and is newer than the replica. -/
def OnlyAdminChanges (row : SecurityRow) (replica : Replica) (update : Update Signature) : Prop :=
  directory ((merge sodium layouts update).leaves replica) ≠ directory replica →
    update.author = row.author ∧
      sodium.verifyDetached update.sign
        (toCheck layouts (update.author, update.version, update.pubKeys)) row.publicKey = true ∧
      persistedVersion replica < update.version

/-- The update names another author than the admin, and neither the assertion
nor the other two checks refuse it. -/
def Unprivileged (row : SecurityRow) (replica : Replica) (update : Update Signature) : Prop :=
  update.author ≠ row.author ∧
    (replica.ndebug = true ∨ update.author = cString row.author) ∧
    persistedVersion replica < update.version ∧ checked sodium layouts replica update = true

/-- The row of a stored author is found. -/
theorem find_stored (table : SecurityTable) (row : SecurityRow) (member : row ∈ table.rows) :
    table.find row.author = some row := by
  have present : ∃ found, table.find row.author = some found := by
    apply Option.isSome_iff_exists.mp
    rw [SecurityTable.find, List.find?_isSome]
    exact ⟨row, member, by simp⟩
  obtain ⟨found, located⟩ := present
  have same : found.author = row.author := by simpa using List.find?_some located
  have foundMember : found ∈ table.rows := List.mem_of_find?_eq_some located
  rw [located, List.inj_on_of_nodup_map table.unique foundMember member same]

/-- Only the admin changes the directory, exactly as far as no unprivileged
update gets past the checks. -/
theorem only_admin_changes_iff (replica : Replica) (reliable : replica.Reliable)
    (row : SecurityRow) (only : replica.security.rows.filter (·.isAdmin) = [row])
    (update : Update Signature) :
    OnlyAdminChanges sodium layouts row replica update ↔
      ¬ Unprivileged sodium layouts row replica update := by
  have ran := @merge_run _ sodium layouts _ reliable _ (get_admin_run reliable row only) update
  constructor
  · rintro property ⟨other, passes, newer, valid⟩
    have running : ¬ (cString row.author ≠ update.author ∧ replica.ndebug = false) := by
      rintro ⟨different, asserted⟩
      rcases passes with build | same
      · rw [build] at asserted
        exact absurd asserted (by decide)
      · exact different same.symm
    rw [if_neg running, if_neg (UInt16.not_le.mpr newer), if_pos valid] at ran
    refine other (property ?_).1
    intro unchanged
    rw [Program.leaves, ran] at unchanged
    have version : persistedVersion (installed sodium (settled replica) update) =
        persistedVersion replica := congrArg Prod.fst unchanged
    rw [installed_version] at version
    exact absurd newer (by simp [version])
  · intro privileged changed
    rw [Program.leaves, ran] at changed
    by_cases stops : cString row.author ≠ update.author ∧ replica.ndebug = false
    · rw [if_pos stops] at changed
      exact absurd (settled_directory replica) changed
    rw [if_neg stops] at changed
    by_cases old : update.version ≤ persistedVersion replica
    · rw [if_pos old] at changed
      exact absurd (settled_directory replica) changed
    rw [if_neg old] at changed
    by_cases valid : checked sodium layouts replica update = true
    · have admin : update.author = row.author := by
        by_contra other
        refine privileged ⟨other, ?_, UInt16.not_le.mp old, valid⟩
        by_cases build : replica.ndebug = true
        · exact .inl build
        · refine .inr ?_
          by_contra different
          exact stops ⟨fun same => different same.symm, by simpa using build⟩
      have stored : row ∈ replica.security.rows := by
        have listed : row ∈ replica.security.rows.filter (·.isAdmin) := by simp [only]
        exact (List.mem_filter.mp listed).1
      refine ⟨admin, ?_, UInt16.not_le.mp old⟩
      rw [checked, Replica.verifies, admin, find_stored _ row stored] at valid
      rw [admin]
      exact valid
    · rw [if_neg valid] at changed
      exact absurd (settled_directory replica) changed

/-- A replica built with NDEBUG whose admin is `r` and which knows `e`. -/
def guardedReplica (ndebug : Bool) : Replica :=
  { Replica.fresh ndebug (ascii "b") (Sodium.transparent.publicKey (sampleKey 2)) (sampleKey 2) [] with
    security := (SecurityTable.empty.insertAdminPublicOnly (ascii "r")
      (Sodium.transparent.publicKey (sampleKey 9))).insertPublicOnly (ascii "e")
        (Sodium.transparent.publicKey (sampleKey 3)) }

/-- The row of the admin. -/
def adminRow : SecurityRow :=
  ⟨ascii "r", Sodium.transparent.publicKey (sampleKey 9), none, true⟩

/-- An update that `e` signs in its own name, with a key of its own for `a`. -/
def usurpingUpdate : Update Buffer where
  author := ascii "e"
  version := 1
  pubKeys := [(ascii "a", Sodium.transparent.publicKey (sampleKey 3))]
  sign := Sodium.transparent.signDetached
    (toCheck sampleLayouts
      (ascii "e", 1, [(ascii "a", Sodium.transparent.publicKey (sampleKey 3))])) (sampleKey 3)

theorem only_admin_changes_iff_sample :
    OnlyAdminChanges Sodium.transparent sampleLayouts adminRow (guardedReplica false)
        usurpingUpdate ↔
      ¬ Unprivileged Sodium.transparent sampleLayouts adminRow (guardedReplica false)
        usurpingUpdate :=
  only_admin_changes_iff Sodium.transparent sampleLayouts (guardedReplica false) rfl adminRow rfl
    usurpingUpdate

/-- With NDEBUG an author who is not the admin replaces the directory. -/
theorem usurping_update_changes_directory :
    ¬ OnlyAdminChanges Sodium.transparent sampleLayouts adminRow (guardedReplica true)
      usurpingUpdate := by
  intro property
  have reliable : (guardedReplica true).Reliable := rfl
  have ran := @merge_run _ Sodium.transparent sampleLayouts _ reliable _
    (get_admin_run reliable adminRow rfl) usurpingUpdate
  rw [if_neg (by decide), if_neg (by decide), if_pos (by decide +kernel)] at ran
  have author := (property ?_).1
  · exact absurd author (by decide)
  · intro unchanged
    rw [Program.leaves, ran] at unchanged
    have version := congrArg Prod.fst unchanged
    exact absurd version (by decide +kernel)

end KeysCrdt

end Replikon
