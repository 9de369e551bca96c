import Replikon.Refinement.Interruptions
import Replikon.Refinement.KeyTable

/-!
# What an interrupted change of the directory leaves

`merge` writes the version, then the signature, then one key after another;
`addKey` writes the key, the version and the signature. No transaction holds
them together and most results are ignored, so what a failure or a stop leaves
is the writes that were made, whichever they are.
-/

namespace Replikon.KeysCrdt

open Foundation

/-- The writes of `merge` and `addKey`, with what they store. `settle` is the
zero that is stored for a missing version. -/
inductive DirectoryWrite where
  | settle
  | version (number : Version)
  | signature (bytes : Buffer)
  | key (entry : Author × PubKey)
  deriving DecidableEq

namespace DirectoryWrite

/-- The effect of a write. -/
def apply (replica : Replica) : DirectoryWrite → Replica
  | settle => settled replica
  | version number =>
    { replica with
      keyValue := replica.keyValue.insertOrReplace versionKey (.integer number.toUInt64.toInt64) }
  | signature bytes =>
    { replica with keyValue := replica.keyValue.insertOrReplace signKey (.blob bytes) }
  | key entry => { replica with security := replica.security.insertPublicOnly entry.1 entry.2 }

/-- The version that a write stores. -/
def storedVersion : DirectoryWrite → Option Version
  | version number => some number
  | _ => none

/-- The signature that a write stores. -/
def storedSignature : DirectoryWrite → Option Buffer
  | signature bytes => some bytes
  | _ => none

/-- The key that a write stores. -/
def storedKey : DirectoryWrite → Option (Author × PubKey)
  | key entry => some entry
  | _ => none

/-- The directory after some writes: the last version, the last signature and
all keys. -/
def written (replica : Replica) (writes : List DirectoryWrite) :
    Version × Option Buffer × List SecurityRow :=
  ((writes.filterMap storedVersion).getLast?.getD (persistedVersion replica),
    (writes.filterMap storedSignature).getLast?.or (persistedSignature replica),
    (SecurityTable.keyed.upsertAll replica.security (writes.filterMap storedKey)).rows)

@[simp] theorem apply_version (replica : Replica) (write : DirectoryWrite) :
    persistedVersion (apply replica write) =
      write.storedVersion.getD (persistedVersion replica) := by
  cases write with
  | settle => exact settled_version replica
  | version number =>
    simp [apply, storedVersion, persistedVersion, KeyValueTable.find_insert_or_replace,
      Sql.Value.columnInt64]
  | signature bytes =>
    have other : ¬ versionKey = signKey := by decide
    simp [apply, storedVersion, persistedVersion, KeyValueTable.find_insert_or_replace, other]
  | key entry => rfl

@[simp] theorem apply_signature (replica : Replica) (write : DirectoryWrite) :
    persistedSignature (apply replica write) =
      write.storedSignature.or (persistedSignature replica) := by
  cases write with
  | settle => exact settled_signature replica
  | version number =>
    have other : ¬ signKey = versionKey := by decide
    simp [apply, storedSignature, persistedSignature, KeyValueTable.find_insert_or_replace, other]
  | signature bytes =>
    simp [apply, storedSignature, persistedSignature, KeyValueTable.find_insert_or_replace,
      Sql.Value.columnBlobAsBuffer, Sql.Value.bytes]
  | key entry => rfl

@[simp] theorem apply_security (replica : Replica) (write : DirectoryWrite) :
    (apply replica write).security =
      SecurityTable.keyed.upsertAll replica.security write.storedKey.toList := by
  cases write with
  | settle => exact settled_security replica
  | version number => rfl
  | signature bytes => rfl
  | key entry => rfl

/-- The directory is what was written. -/
theorem directory_apply_all (replica : Replica) (writes : List DirectoryWrite) :
    directory (writes.foldl apply replica) = written replica writes := by
  induction writes generalizing replica with
  | nil => rfl
  | cons write rest inductionHypothesis =>
    rw [List.foldl_cons, inductionHypothesis, written, written, apply_version, apply_signature,
      apply_security]
    cases write with
    | settle => rfl
    | version number => simp [storedVersion, storedSignature, storedKey, List.getLast?_cons]; rfl
    | signature bytes => simp [storedVersion, storedSignature, storedKey, List.getLast?_cons]; rfl
    | key entry => rfl

end DirectoryWrite

/-- How the writes of a call end. -/
structure Interruption where
  settle : Ending
  version : Ending
  signature : Ending
  key : Nat → Ending

section Rules

/-- Facing the calls, the program leaves exactly the writes that are made. -/
def Leaves {α : Type} (program : Program α) (replica : Replica) (calls : List Outcome)
    (writes : List (Fate × DirectoryWrite)) : Prop :=
  ∀ stack, ∃ script after, program.leaves (replica.facing calls stack) =
    ((made writes).foldl DirectoryWrite.apply replica).facing script after

variable {α β : Type} {replica : Replica} {rest : List Outcome}
  {writes : List (Fate × DirectoryWrite)}

/-- What a program leaves that goes on after its first part. -/
theorem leaves_of_ok {program : Program α} {start after : Replica} {value : α}
    (next : α → Program β) (returned : program.run start = .ok value after) :
    (program >>= next).leaves start = (next value).leaves after := by
  rw [Program.leaves, bind_ok next returned]
  rfl

/-- What it leaves if it stops there. -/
theorem leaves_of_error {program : Program α} {start after : Replica} {reason : Stop}
    (next : α → Program β) (stopped : program.run start = .error reason after) :
    (program >>= next).leaves start = after := by
  rw [Program.leaves, bind_error next stopped]

/-- A program that writes nothing. -/
theorem Leaves.pure (value : α) (calls : List Outcome) :
    Leaves (Pure.pure value) replica calls [] :=
  fun stack => ⟨calls, stack, rfl⟩

/-- A read does not change what is left. -/
theorem Leaves.read {program : Program α} {value : α} {calls : List Outcome}
    (next : α → Program β)
    (reads : ∀ stack, program.run (replica.facing calls stack) =
      .ok value (replica.facing rest stack))
    (later : Leaves (next value) replica rest writes) :
    Leaves (program >>= next) replica calls writes := by
  intro stack
  rw [leaves_of_ok next (reads stack)]
  exact later stack

/-- The program performs the write in four calls. -/
structure Performs (program : Program SqliteResult) (replica : Replica) (write : DirectoryWrite) :
    Prop where
  made : ∀ rest stack, ∃ result after,
    program.run (replica.facing (Ending.made.calls ++ rest) stack) =
      .ok result ((write.apply replica).facing rest after)
  failed : ∀ ending : Ending, ending.fate = .failed → ∀ rest stack, ∃ result after,
    program.run (replica.facing (ending.calls ++ rest) stack) =
      .ok result (replica.facing rest after)
  stopped : ∀ ending : Ending, ending.fate = .stopped → ∀ rest stack, ∃ after,
    program.run (replica.facing (ending.calls ++ rest) stack) =
      .error .killed (replica.facing rest after)

/-- A write whose result is ignored. -/
theorem Leaves.write {program : Program SqliteResult} {write : DirectoryWrite}
    (performs : Performs program replica write) (ending : Ending)
    (next : SqliteResult → Program β)
    (ifMade : ending.fate = .made → ∀ result, Leaves (next result) (write.apply replica) rest writes)
    (ifFailed : ending.fate = .failed → ∀ result, Leaves (next result) replica rest writes) :
    Leaves (program >>= next) replica (ending.calls ++ rest) ((ending.fate, write) :: writes) := by
  intro stack
  cases fate : ending.fate with
  | made =>
    obtain rfl := Ending.eq_made fate
    obtain ⟨result, after, ran⟩ := performs.made rest stack
    rw [leaves_of_ok next ran]
    exact ifMade rfl result after
  | failed =>
    obtain ⟨result, after, ran⟩ := performs.failed ending fate rest stack
    rw [leaves_of_ok next ran]
    exact ifFailed fate result after
  | stopped =>
    obtain ⟨after, ran⟩ := performs.stopped ending fate rest stack
    rw [leaves_of_error next ran]
    exact ⟨rest, after, rfl⟩

/-- A write whose result is asserted: a build with assertions does not go on
after a failure. -/
theorem Leaves.assertedWrite {key : Text} {value : Sql.Value} {write : DirectoryWrite}
    (effect : write.apply replica =
      { replica with keyValue := replica.keyValue.insertOrReplace key value })
    (ending : Ending) (next : Program β)
    (ifMade : ending.fate = .made → Leaves next (write.apply replica) rest writes)
    (ifFailed : ending.fate = .failed → Leaves next replica rest writes) :
    Leaves (KeyValueDao.insertValue key value >>= fun res =>
        replikonAssert (res == .ok) >>= fun _ => next) replica (ending.calls ++ rest)
      ((ending.fate.checked !replica.ndebug, write) :: writes) := by
  intro stack
  cases fate : ending.fate with
  | made =>
    obtain rfl := Ending.eq_made fate
    rw [leaves_of_ok _ (KeyValueDao.insert_value_made replica rest stack key value), ← effect,
      leaves_of_ok _ (assert_run (SqliteResult.ok == .ok) rfl)]
    exact ifMade rfl stack
  | failed =>
    rw [leaves_of_ok _ (KeyValueDao.insert_value_failed replica ending rest stack key value fate)]
    cases build : replica.ndebug with
    | true =>
      have unmade := @assert_unmade_run (replica.facing rest stack) (SqliteResult.error == .ok) build
      rw [leaves_of_ok _ unmade]
      exact ifFailed fate stack
    | false =>
      have refused := @assert_stops_run (replica.facing rest stack) (SqliteResult.error == .ok) rfl
        build
      rw [leaves_of_error _ refused]
      exact ⟨rest, stack, rfl⟩
  | stopped =>
    rw [leaves_of_error _
      (KeyValueDao.insert_value_stopped replica ending rest stack key value fate)]
    exact ⟨rest, stack, rfl⟩

variable (replica) in
/-- The calls of `getPersistedVersion`: a read, and a write of a missing version. -/
def settleCalls (ending : Ending) : List Outcome :=
  completing 3 ++ if (replica.keyValue.find versionKey).isNone then ending.calls else []

variable (replica) in
/-- The write of `getPersistedVersion`. -/
def settleWrites (ending : Ending) : List (Fate × DirectoryWrite) :=
  if (replica.keyValue.find versionKey).isNone then
    [(ending.fate.checked !replica.ndebug, .settle)]
  else []

/-- What reading the version leaves unchanged. -/
theorem settled_or_same {after : Replica} (same : after = replica ∨ after = settled replica) :
    after.security = replica.security ∧ after.ndebug = replica.ndebug ∧
      after.selfPrivKey = replica.selfPrivKey := by
  rcases same with rfl | rfl <;> simp

/-- Reading the version may store a zero, after which it reads the same. -/
theorem Leaves.version (ending : Ending) (next : Version → Program β)
    (later : ∀ after, after = replica ∨ after = settled replica →
      Leaves (next (persistedVersion replica)) after rest writes) :
    Leaves (getPersistedVersion >>= next) replica (settleCalls replica ending ++ rest)
      (settleWrites replica ending ++ writes) := by
  have read : ∀ rest stack, (KeyValueDao.getIntegerValue versionKey).run
      (replica.facing (completing 3 ++ rest) stack) =
        .ok (.ok ((replica.keyValue.find versionKey).map (·.columnInt64)))
          (replica.facing rest stack) :=
    fun rest stack => KeyValueDao.get_value_completes _ _
  rw [getPersistedVersion, bind_assoc, settleCalls, List.append_assoc]
  refine Leaves.read _ (read _) ?_
  cases present : replica.keyValue.find versionKey with
  | some value =>
    have same : persistedVersion replica = value.columnInt64.toUInt64.toUInt16 := by
      simp only [persistedVersion, present]
    have unsettled : settleWrites replica ending = [] := by simp [settleWrites, present]
    rw [unsettled]
    simp only [Option.map_some, valueOf, pure_bind, Option.isNone_some, Bool.false_eq_true, if_false,
      List.nil_append]
    rw [← same]
    exact later replica (.inl rfl)
  | none =>
    have zero : persistedVersion replica = 0 := by simp only [persistedVersion, present]
    have effect : DirectoryWrite.settle.apply replica =
        { replica with keyValue := replica.keyValue.insertOrReplace versionKey (.integer 0) } := by
      simp only [DirectoryWrite.apply, settled, present]
    have stored : settleWrites replica ending =
        [(ending.fate.checked !replica.ndebug, .settle)] := by simp [settleWrites, present]
    rw [stored]
    simp only [Option.map_none, valueOf, pure_bind, bind_assoc, Option.isNone_none, if_true,
      List.cons_append, List.nil_append, KeyValueDao.insertIntegerValue]
    rw [← zero]
    exact Leaves.assertedWrite effect ending (next (persistedVersion replica))
      (fun _ => later _ (.inr rfl)) (fun _ => later _ (.inl rfl))

/-- An assertion that holds, or that nobody makes, changes nothing. -/
theorem Leaves.passed {condition : Bool} {calls : List Outcome} (next : Unit → Program β)
    (passes : condition = true ∨ replica.ndebug = true)
    (later : Leaves (next ()) replica calls writes) :
    Leaves (replikonAssert condition >>= next) replica calls writes := by
  refine Leaves.read next (fun stack => ?_) later
  rcases passes with holds | build
  · exact assert_run condition holds
  · exact assert_unmade_run condition build

/-- The admin that a reliable read finds is found. -/
theorem get_admin_completes (reliable : replica.Reliable) {admin : Author}
    (known : getAdmin.run replica = .ok admin replica) (stack : List SqliteResult) :
    getAdmin.run (replica.facing
      (completing ((replica.security.rows.filter (·.isAdmin)).length + 2) ++ rest) stack) =
        .ok admin (replica.facing rest stack) := by
  rw [get_admin_eq, bind_ok _ (SecurityDao.get_admins_user_info_run reliable),
    bind_ok _ (value_of_run _)] at known
  have found := (admin_of_run_iff _ _ _).mp known
  rw [get_admin_eq, bind_ok _ SecurityDao.get_admins_user_info_completes,
    bind_ok _ (value_of_run _)]
  exact (admin_of_run_iff _ _ _).mpr found

/-- A key is written to the row of its author. -/
theorem performs_key (entry : Author × PubKey) :
    Performs (SecurityDao.insertPublicKey entry.1 entry.2) replica (.key entry) where
  made rest stack := SecurityDao.insert_key_made replica rest stack _ _ _
  failed ending fate rest stack := SecurityDao.insert_key_failed replica ending rest stack _ _ _ fate
  stopped ending fate rest stack :=
    SecurityDao.insert_key_stopped replica ending rest stack _ _ _ fate

/-- A value is written to a row of its own. -/
theorem performs_value {key : Text} {value : Sql.Value} {write : DirectoryWrite}
    (effect : write.apply replica =
      { replica with keyValue := replica.keyValue.insertOrReplace key value }) :
    Performs (KeyValueDao.insertValue key value) replica write where
  made rest stack :=
    ⟨.ok, stack, by rw [KeyValueDao.insert_value_made, effect]⟩
  failed ending fate rest stack :=
    ⟨.error, stack, KeyValueDao.insert_value_failed replica ending rest stack key value fate⟩
  stopped ending fate rest stack :=
    ⟨stack, KeyValueDao.insert_value_stopped replica ending rest stack key value fate⟩

end Rules

section Merge

variable {Signature : Type} (sodium : Sodium Signature) (layouts : Layouts)

/-- The calls of the writes of some keys. -/
def keyCalls (endings : Nat → Ending) (pubKeys : PubKeyMap) : List Outcome :=
  (pubKeys.mapIdx fun i _ => (endings i).calls).flatten

/-- The writes of some keys. -/
def keyWrites (endings : Nat → Ending) (pubKeys : PubKeyMap) : List (Fate × DirectoryWrite) :=
  pubKeys.mapIdx fun i entry => ((endings i).fate, .key entry)

/-- The calls of `merge`: the header, the check of the signature and the writes. -/
def mergeCalls (replica : Replica) (update : Update Signature) (interruption : Interruption) :
    List Outcome :=
  completing ((replica.security.rows.filter (·.isAdmin)).length + 2) ++
    (settleCalls replica interruption.settle ++ (completing 3 ++ (interruption.version.calls ++
      (interruption.signature.calls ++ keyCalls interruption.key update.pubKeys))))

/-- The writes of `merge`. -/
def mergeWrites (replica : Replica) (update : Update Signature) (interruption : Interruption) :
    List (Fate × DirectoryWrite) :=
  settleWrites replica interruption.settle ++
    (interruption.version.fate, .version update.version) ::
      (interruption.signature.fate, .signature (sodium.toBytes update.sign)) ::
        keyWrites interruption.key update.pubKeys

variable {sodium layouts}

/-- One key is written after another. -/
theorem insert_public_keys_leaves (endings : Nat → Ending) (pubKeys : PubKeyMap)
    (replica : Replica) (status : MergeStatus) :
    Leaves (insertPublicKeys pubKeys >>= fun _ => pure status) replica
      (keyCalls endings pubKeys) (keyWrites endings pubKeys) := by
  induction pubKeys generalizing endings replica with
  | nil => exact Leaves.pure status []
  | cons entry rest inductionHypothesis =>
    have calls : keyCalls endings (entry :: rest) =
        (endings 0).calls ++ keyCalls (fun i => endings (i + 1)) rest := by
      simp [keyCalls, List.mapIdx_cons]
    have writes : keyWrites endings (entry :: rest) =
        ((endings 0).fate, .key entry) :: keyWrites (fun i => endings (i + 1)) rest := by
      simp [keyWrites, List.mapIdx_cons]
    rw [calls, writes, insertPublicKeys, bind_assoc]
    exact Leaves.write (performs_key entry) (endings 0) _
      (fun _ _ => inductionHypothesis _ _) (fun _ _ => inductionHypothesis _ _)

/-- An interrupted `merge` of an update that passes the checks leaves the writes
that were made. -/
theorem merge_leaves {replica : Replica} (reliable : replica.Reliable) {admin : Author}
    (known : getAdmin.run replica = .ok admin replica) (update : Update Signature)
    (author : admin = update.author ∨ replica.ndebug = true)
    (newer : persistedVersion replica < update.version)
    (valid : checked sodium layouts replica update = true) (interruption : Interruption) :
    Leaves (merge sodium layouts update) replica (mergeCalls replica update interruption)
      (mergeWrites sodium replica update interruption) := by
  rw [merge, getHeader]
  simp only [bind_assoc, pure_bind]
  refine Leaves.read _ (get_admin_completes reliable known) ?_
  refine Leaves.version interruption.settle _ fun after same => ?_
  obtain ⟨security, build, _⟩ := settled_or_same same
  refine Leaves.passed _ (by simpa [build] using author) ?_
  rw [if_neg (UInt16.not_le.mpr newer)]
  refine Leaves.read _ (fun stack => SecurityProvider.is_valid_completes _ _ _ _ _) ?_
  have verified : after.verifies sodium update.author
      (toCheck layouts (update.author, update.version, update.pubKeys)) update.sign = true := by
    rw [Replica.verifies_congr sodium security]
    exact valid
  rw [if_pos verified]
  have signed : ∀ base : Replica, Leaves (KeyValueDao.insertBlobValue signKey
      (sodium.toBytes update.sign) >>= fun _ => insertPublicKeys update.pubKeys >>=
        fun _ => pure MergeStatus.merged) base
      (interruption.signature.calls ++ keyCalls interruption.key update.pubKeys)
      ((interruption.signature.fate, .signature (sodium.toBytes update.sign)) ::
        keyWrites interruption.key update.pubKeys) :=
    fun base => Leaves.write (performs_value rfl) _ _
      (fun _ _ => insert_public_keys_leaves _ _ _ _) (fun _ _ => insert_public_keys_leaves _ _ _ _)
  exact Leaves.write (performs_value rfl) _ _ (fun _ _ => signed _) (fun _ _ => signed _)

end Merge

section AddKey

variable {Signature : Type} (sodium : Sodium Signature) (layouts : Layouts) (replica : Replica)
  (author : Author) (pubKey : PubKey) (interruption : Interruption)

/-- The key table that `addKey` lists after the write of the key. -/
def listedTable : SecurityTable :=
  if (interruption.key 0).fate = .made then replica.security.insertPublicOnly author pubKey
  else replica.security

/-- The bytes of the signature over a key table. -/
def tableSignature (table : SecurityTable) : Buffer :=
  sodium.toBytes (sodium.signDetached
    (Serde.vector layouts.tuple (table.rows.map SecurityDao.publicKey)) replica.selfPrivKey)

/-- The calls of `addKey`. -/
def addKeyCalls : List Outcome :=
  (interruption.key 0).calls ++ (settleCalls replica interruption.settle ++
    (interruption.version.calls ++
      (completing ((listedTable replica author pubKey interruption).rows.length + 2) ++
        (interruption.signature.calls ++ []))))

/-- The writes of `addKey`, of which the version is asserted. -/
def addKeyWrites : List (Fate × DirectoryWrite) :=
  ((interruption.key 0).fate, .key (author, pubKey)) ::
    (settleWrites replica interruption.settle ++
      [(interruption.version.fate.checked !replica.ndebug, .version (persistedVersion replica + 1)),
        (interruption.signature.fate, .signature (tableSignature sodium layouts replica
          (listedTable replica author pubKey interruption)))])

/-- The last part of `addKey`: the keys are listed and signed. -/
def signKeys : Program Unit := do
  let pairs ← valueOf (← SecurityDao.getAllPublicKeys)
  let sign ← SecurityProvider.sign sodium (Serde.vector layouts.tuple) pairs
  let _ ← KeyValueDao.insertBlobValue signKey (sodium.toBytes sign)
  pure ()

/-- `addKey` after the write of the key. -/
def raiseVersion : Program Unit := do
  let version ← getPersistedVersion
  let res ← KeyValueDao.insertIntegerValue versionKey (version + 1).toUInt64.toInt64
  replikonAssert (res == .ok)
  signKeys sodium layouts

/-- `addKey` in two parts. -/
theorem add_key_eq : addKey sodium layouts author pubKey =
    (do let _ ← SecurityDao.insertPublicKey author pubKey; raiseVersion sodium layouts) := rfl

variable {replica}

/-- What was listed is signed and the signature is stored. -/
theorem sign_keys_leaves (ending : Ending) : Leaves (signKeys sodium layouts) replica
    (completing (replica.security.rows.length + 2) ++ (ending.calls ++ []))
    [(ending.fate, .signature (tableSignature sodium layouts replica replica.security))] := by
  have signs : ∀ stack, (SecurityProvider.sign sodium (Serde.vector layouts.tuple)
      (replica.security.rows.map SecurityDao.publicKey)).run
        (replica.facing (ending.calls ++ []) stack) =
      .ok (sodium.signDetached (Serde.vector layouts.tuple
        (replica.security.rows.map SecurityDao.publicKey)) replica.selfPrivKey)
        (replica.facing (ending.calls ++ []) stack) := fun stack => SecurityProvider.sign_run _ _
  refine Leaves.read _ (fun stack => SecurityDao.get_all_public_keys_completes) ?_
  refine Leaves.read _ (fun stack => value_of_run _) ?_
  refine Leaves.read _ signs ?_
  exact Leaves.write (performs_value rfl) ending _ (fun _ _ => Leaves.pure () [])
    (fun _ _ => Leaves.pure () [])

/-- The version is written before the signature, and asserted. -/
theorem raise_version_leaves (settle version signature : Ending) :
    Leaves (raiseVersion sodium layouts) replica
      (settleCalls replica settle ++ (version.calls ++
        (completing (replica.security.rows.length + 2) ++ (signature.calls ++ []))))
      (settleWrites replica settle ++
        [(version.fate.checked !replica.ndebug, .version (persistedVersion replica + 1)),
          (signature.fate,
            .signature (tableSignature sodium layouts replica replica.security))]) := by
  refine Leaves.version settle _ fun after same => ?_
  obtain ⟨security, build, owned⟩ := settled_or_same same
  rw [← build, ← security, tableSignature, ← owned]
  exact Leaves.assertedWrite rfl version (signKeys sodium layouts)
    (fun _ => sign_keys_leaves sodium layouts signature)
    (fun _ => sign_keys_leaves sodium layouts signature)

/-- An interrupted `addKey` leaves the writes that were made. -/
theorem add_key_leaves : Leaves (addKey sodium layouts author pubKey) replica
    (addKeyCalls replica author pubKey interruption)
    (addKeyWrites sodium layouts replica author pubKey interruption) := by
  rw [add_key_eq, addKeyCalls, addKeyWrites]
  refine Leaves.write (performs_key (author, pubKey)) (interruption.key 0) _ ?_ ?_
  · intro fate _
    rw [listedTable, if_pos fate]
    exact raise_version_leaves sodium layouts _ _ _
  · intro fate _
    rw [listedTable, if_neg (by simp [fate])]
    exact raise_version_leaves sodium layouts _ _ _

end AddKey

end Replikon.KeysCrdt
