import Replikon.Foundation.Runs
import Replikon.Refinement.KeyTable

/-!
# Whether a stored private key belongs to the stored public key

Three upserts write the row of an author. The one for both keys replaces them
together; the two for a public key leave the private key as it is. So a pair that
was stored together is torn apart by a public key that did not come with it.
-/

namespace Replikon.SecurityDao

open Foundation

/-- A call of one of the three inserts. -/
inductive KeyCall where
  | insertPublicKey (author : Author) (pubKey : PubKey)
  | insertAdminPublicKey (author : Author) (pubKey : PubKey)
  | insertAllKeys (author : Author) (pubKey : PubKey) (privKey : PrivKey)
  deriving DecidableEq

namespace KeyCall

/-- What the call runs. -/
def program : KeyCall → Program SqliteResult
  | insertPublicKey author pubKey => SecurityDao.insertPublicKey author pubKey
  | insertAdminPublicKey author pubKey => SecurityDao.insertAdminPublicKey author pubKey
  | insertAllKeys author pubKey privKey => SecurityDao.insertAllKeys author pubKey privKey

/-- The table after the call. -/
def table (security : SecurityTable) : KeyCall → SecurityTable
  | insertPublicKey author pubKey => security.insertPublicOnly author pubKey
  | insertAdminPublicKey author pubKey => security.insertAdminPublicOnly author pubKey
  | insertAllKeys author pubKey privKey => security.insertFull author pubKey (some privKey)

/-- A call changes the key table and uses up a local. -/
theorem leaves {replica : Replica} (reliable : replica.Reliable) (keyCall : KeyCall) :
    keyCall.program.leaves replica =
      { replica with security := keyCall.table replica.security, stack := replica.stack.tail } := by
  cases keyCall with
  | insertPublicKey author pubKey =>
    rw [Program.leaves, program, SecurityDao.insertPublicKey, insert_key_run reliable]
    rfl
  | insertAdminPublicKey author pubKey =>
    rw [Program.leaves, program, SecurityDao.insertAdminPublicKey, insert_key_run reliable]
    rfl
  | insertAllKeys author pubKey privKey =>
    rw [Program.leaves, program, insert_all_keys_run reliable]
    rfl

end KeyCall

/-- A replica, and the calls that were made on it. -/
structure Keyring where
  replica : Replica
  calls : List KeyCall

/-- Make one more call. -/
def issue (keyring : Keyring) (keyCall : KeyCall) : Option Keyring :=
  some ⟨keyCall.program.leaves keyring.replica, keyring.calls ++ [keyCall]⟩

/-- There is one row for an author at most, and a private key that is reported
was passed together with the public key that is reported with it. -/
structure PairsBelong (keyring : Keyring) : Prop where
  unique : (keyring.replica.security.rows.map (·.author)).Nodup
  paired : ∀ author, ∃ found,
    (getUserInfo author).run keyring.replica = .ok (.ok found) keyring.replica ∧
      ∀ userInfo privKey, found = some userInfo → userInfo.privKey = some privKey →
        .insertAllKeys author userInfo.pubKey privKey ∈ keyring.calls

/-- A public key that is written over a row with a private key has come with that
private key before. -/
def KeepsPair (keyring : Keyring) : KeyCall → Prop
  | .insertPublicKey author pubKey | .insertAdminPublicKey author pubKey =>
    ∀ row privKey, keyring.replica.security.find author = some row →
      row.privateKey = some privKey → .insertAllKeys author pubKey privKey ∈ keyring.calls
  | .insertAllKeys _ _ _ => True

/-- The pairs of the table were passed in one of the calls. -/
def Paired (table : SecurityTable) (calls : List KeyCall) : Prop :=
  ∀ author row privKey, table.find author = some row → row.privateKey = some privKey →
    .insertAllKeys author row.publicKey privKey ∈ calls

/-- What is reported belongs together exactly when what is stored does. -/
theorem pairs_belong_iff (keyring : Keyring) (reliable : keyring.replica.Reliable) :
    PairsBelong keyring ↔ Paired keyring.replica.security keyring.calls := by
  constructor
  · intro belong author row privKey located stored
    obtain ⟨found, ran, paired⟩ := belong.paired author
    rw [get_user_info_run reliable, located] at ran
    cases ran
    exact paired (userInfo row) privKey rfl stored
  · intro paired
    refine ⟨keyring.replica.security.unique, fun author =>
      ⟨_, get_user_info_run reliable author, ?_⟩⟩
    intro reported privKey found stored
    obtain ⟨row, located, rfl⟩ := Option.map_eq_some_iff.mp found
    exact paired author row privKey located stored

section Step

variable {table : SecurityTable} {calls : List KeyCall} (paired : Paired table calls)
include paired

/-- A call that writes the public key of an author and keeps the private one. -/
theorem paired_public_iff (after : SecurityTable) (author : Author) (pubKey : PubKey) (flag : Bool)
    (keyCall : KeyCall) (onlyPublic : ∀ name key privKey, keyCall ≠ .insertAllKeys name key privKey)
    (located : ∀ query, after.find query =
      if query = author then some ⟨author, pubKey, (table.otherColumns author).1, flag⟩
      else table.find query) :
    Paired after (calls ++ [keyCall]) ↔
      ∀ row privKey, table.find author = some row → row.privateKey = some privKey →
        .insertAllKeys author pubKey privKey ∈ calls := by
  have earlier : ∀ name key privKey, .insertAllKeys name key privKey ∈ calls ++ [keyCall] ↔
      .insertAllKeys name key privKey ∈ calls := by
    intro name key privKey
    have other : KeyCall.insertAllKeys name key privKey ≠ keyCall :=
      fun same => onlyPublic name key privKey same.symm
    simp [other]
  constructor
  · intro holds row privKey found stored
    have kept : (table.otherColumns author).1 = some privKey := by
      rw [SecurityTable.otherColumns, found]
      exact stored
    exact (earlier _ _ _).mp (holds author _ privKey ((located author).trans (if_pos rfl)) kept)
  · intro given name row privKey found stored
    rw [earlier]
    rw [located] at found
    by_cases same : name = author
    · rw [if_pos same] at found
      obtain rfl := Option.some.inj found
      rw [same]
      cases before : table.find author with
      | none => simp [SecurityTable.otherColumns, before] at stored
      | some old =>
        have oldKey : old.privateKey = some privKey := by
          simpa [SecurityTable.otherColumns, before] using stored
        exact given old privKey before oldKey
    · rw [if_neg same] at found
      exact paired name row privKey found stored

/-- A call that writes both keys keeps all pairs together. -/
theorem paired_full (author : Author) (pubKey : PubKey) (privKey : PrivKey) :
    Paired (table.insertFull author pubKey (some privKey))
      (calls ++ [.insertAllKeys author pubKey privKey]) := by
  intro name row stored found key
  rw [SecurityTable.find_insert_full] at found
  by_cases same : name = author
  · rw [if_pos same] at found
    obtain rfl := Option.some.inj found
    obtain rfl := Option.some.inj key
    rw [same]
    exact List.mem_append_right _ (List.mem_singleton_self _)
  · rw [if_neg same] at found
    exact List.mem_append_left _ (paired name row stored found key)

/-- One case for each of the three calls. -/
theorem paired_call_iff (replica : Replica) (own : replica.security = table) (keyCall : KeyCall) :
    Paired (keyCall.table table) (calls ++ [keyCall]) ↔ KeepsPair ⟨replica, calls⟩ keyCall := by
  subst own
  cases keyCall with
  | insertPublicKey author pubKey =>
    exact paired_public_iff paired _ author pubKey _ _ (by simp)
      fun query => SecurityTable.find_insert_public_only _ author query pubKey
  | insertAdminPublicKey author pubKey =>
    exact paired_public_iff paired _ author pubKey true _ (by simp)
      fun query => SecurityTable.find_insert_admin_public_only _ author query pubKey
  | insertAllKeys author pubKey privKey =>
    exact iff_of_true (paired_full paired author pubKey privKey) trivial

end Step

/-- In every sequence of calls from an empty key table, stored pairs belong
together after every call exactly when every call keeps the pair it writes to. -/
theorem pairs_belong_throughout_iff (replica : Replica) (reliable : replica.Reliable)
    (empty : replica.security = .empty) (calls : List KeyCall) :
    Throughout issue PairsBelong ⟨replica, []⟩ calls ↔
      Along issue KeepsPair ⟨replica, []⟩ calls := by
  have keeps : ∀ (keyring : Keyring) (keyCall : KeyCall) (next : Keyring),
      keyring.replica.Reliable → issue keyring keyCall = some next → next.replica.Reliable := by
    intro keyring keyCall next reliable issued
    obtain rfl := Option.some.inj issued
    rw [KeyCall.leaves reliable]
    exact reliable
  refine throughout_iff_along keeps ?_ _ calls reliable ?_
  · intro keyring keyCall next reliable belong issued
    have kept := keeps keyring keyCall next reliable issued
    have paired := (pairs_belong_iff keyring reliable).mp belong
    rw [pairs_belong_iff next kept]
    obtain rfl := Option.some.inj issued
    rw [KeyCall.leaves reliable]
    exact paired_call_iff paired keyring.replica rfl keyCall
  · refine (pairs_belong_iff _ reliable).mpr ?_
    intro author row privKey found
    rw [empty] at found
    cases found

/-- A new replica that knows no key. -/
def keylessReplica : Replica :=
  Replica.fresh false (ascii "a") (Sodium.transparent.publicKey (sampleKey 1)) (sampleKey 1) []

/-- Author `a` stores both its keys. Then another public key arrives for it, as an
update of the directory would bring it. -/
def tearingCalls : List KeyCall :=
  [.insertAllKeys (ascii "a") (Sodium.transparent.publicKey (sampleKey 1)) (sampleKey 1),
    .insertPublicKey (ascii "a") (Sodium.transparent.publicKey (sampleKey 2))]

theorem pairs_belong_throughout_iff_sample :
    Throughout issue PairsBelong ⟨keylessReplica, []⟩ tearingCalls ↔
      Along issue KeepsPair ⟨keylessReplica, []⟩ tearingCalls :=
  pairs_belong_throughout_iff keylessReplica rfl rfl tearingCalls

/-- The private key is then reported with a public key that is not its own. -/
theorem pair_torn :
    keylessReplica.Reliable ∧ keylessReplica.security = .empty ∧
      ¬ Throughout issue PairsBelong ⟨keylessReplica, []⟩ tearingCalls := by
  refine ⟨rfl, rfl, fun throughout => ?_⟩
  let stored := (KeyCall.insertAllKeys (ascii "a") (Sodium.transparent.publicKey (sampleKey 1))
    (sampleKey 1)).program.leaves keylessReplica
  let torn := (KeyCall.insertPublicKey (ascii "a")
    (Sodium.transparent.publicKey (sampleKey 2))).program.leaves stored
  have reported : (getUserInfo (ascii "a")).run torn =
      .ok (.ok (some ⟨ascii "a", Sodium.transparent.publicKey (sampleKey 2), some (sampleKey 1),
        false⟩)) torn := rfl
  obtain ⟨found, ran, paired⟩ := ((throughout.2 _ rfl).2 _ rfl).paired (ascii "a")
  change (getUserInfo (ascii "a")).run torn = _ at ran
  rw [reported] at ran
  cases ran
  exact absurd (paired _ _ rfl rfl) (by decide)

end Replikon.SecurityDao
