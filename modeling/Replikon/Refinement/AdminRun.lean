import Replikon.Refinement.KeyTable

/-!
# What the replica of an admin hands out

An admin only adds. Each update that its replica hands out lists the authors of
the earlier ones first and in their order. Until the version wraps it counts the
keys that were added, so equal versions belong to equal updates.
-/

namespace Replikon.KeysCrdt

open Foundation

variable {Signature : Type} (provider : Provider Signature)

/-- What is called on the replica of the admin. -/
inductive AdminCall where
  | addKey (author : Author) (pubKey : PubKey)
  | getUpdate (request : Request)

/-- What a call leaves, whether it returns or stops. -/
def AdminCall.leaves (replica : Replica) : AdminCall → Replica
  | .addKey author pubKey => (provider.addKey author pubKey).leaves replica
  | .getUpdate request => (provider.getUpdate request).leaves replica

/-- What a run of calls leaves. -/
def adminLeaves (replica : Replica) (calls : List AdminCall) : Replica :=
  calls.foldl (AdminCall.leaves provider) replica

/-- The number of keys that a call adds. -/
def AdminCall.added : AdminCall → Nat
  | .addKey _ _ => 1
  | .getUpdate _ => 0

/-- The number of keys that a run adds. -/
def keysAdded (calls : List AdminCall) : Nat := (calls.map AdminCall.added).sum

/-- The update is returned by a `getUpdate` at some point of the run. -/
def Offered (start : Replica) (calls : List AdminCall) (update : Update Signature) : Prop :=
  ∃ before request later after, calls = before ++ .getUpdate request :: later ∧
    (provider.getUpdate request).run (adminLeaves provider start before) = .ok update after

/-- How the replica of the admin looks later, after the given number of keys. -/
structure Grown (earlier later : Replica) (added : Nat) : Prop where
  reliable : later.Reliable
  ndebug : later.ndebug = earlier.ndebug
  admins : later.security.adminNames = earlier.security.adminNames
  authors : earlier.security.rows.map (·.author) <+: later.security.rows.map (·.author)
  version : persistedVersion later = persistedVersion earlier + UInt16.ofNat added
  unchanged : added = 0 → later.security = earlier.security ∧
    persistedSignature later = persistedSignature earlier

variable {provider}

theorem Grown.refl {replica : Replica} (reliable : replica.Reliable) : Grown replica replica 0 where
  reliable := reliable
  ndebug := rfl
  admins := rfl
  authors := List.prefix_rfl
  version := by simp
  unchanged _ := ⟨rfl, rfl⟩

theorem Grown.trans {first second third : Replica} {few more : Nat}
    (grown : Grown first second few) (later : Grown second third more) :
    Grown first third (few + more) where
  reliable := later.reliable
  ndebug := later.ndebug.trans grown.ndebug
  admins := later.admins.trans grown.admins
  authors := grown.authors.trans later.authors
  version := by rw [later.version, grown.version, UInt16.add_assoc, UInt16.ofNat_add]
  unchanged none := by
    obtain ⟨security, signature⟩ := grown.unchanged (by omega)
    obtain ⟨laterSecurity, laterSignature⟩ := later.unchanged (by omega)
    exact ⟨laterSecurity.trans security, laterSignature.trans signature⟩

/-- Storing a missing version adds nothing. -/
theorem settled_grown {replica : Replica} (reliable : replica.Reliable) :
    Grown replica (settled replica) 0 where
  reliable := settled_reliable reliable
  ndebug := settled_ndebug replica
  admins := by rw [settled_security]
  authors := by rw [settled_security]
  version := by simp
  unchanged _ := ⟨settled_security replica, settled_signature replica⟩

/-- `addKey` adds one key, `getUpdate` none. -/
theorem call_grown {replica : Replica} (reliable : replica.Reliable) (call : AdminCall) :
    Grown replica (call.leaves provider replica) call.added := by
  cases call with
  | addKey author pubKey =>
    have inserted : (keyInserted replica author pubKey).Reliable := reliable
    have raised : (versionRaised (keyInserted replica author pubKey)).Reliable :=
      settled_reliable inserted
    obtain ⟨sign, signed⟩ := provider.sign_const _ raised
      ((keyInserted replica author pubKey).security.rows.map SecurityDao.publicKey)
    have ran := template_add_key_run reliable provider author pubKey sign signed
    rw [AdminCall.leaves, Program.leaves, ran]
    refine ⟨key_added_reliable _ _ _ reliable, key_added_ndebug _ _ _ _, ?_, ?_, ?_, ?_⟩
    · rw [key_added_security, SecurityTable.insert_public_only_admins]
    · have authors := SecurityTable.keyed.keys_upsert replica.security author pubKey
      rw [key_added_security]
      change _ <+: SecurityTable.keyed.keys (SecurityTable.keyed.upsert replica.security author pubKey)
      rw [authors]
      split
      · exact List.prefix_rfl
      · exact List.prefix_append _ _
    · simp [AdminCall.added]
    · intro none
      simp [AdminCall.added] at none
  | getUpdate request =>
    rw [AdminCall.leaves, Program.leaves]
    rcases template_get_update_cases reliable provider request with
      ⟨update, _, ran⟩ | ⟨reason, after, same, stops⟩
    · rw [ran]
      exact settled_grown reliable
    · rw [stops]
      rcases same with rfl | rfl
      · exact .refl reliable
      · exact settled_grown reliable

/-- A run adds as many keys as it has `addKey` calls. -/
theorem calls_grown {replica : Replica} (reliable : replica.Reliable) (calls : List AdminCall) :
    Grown replica (adminLeaves provider replica calls) (keysAdded calls) := by
  induction calls generalizing replica with
  | nil => exact .refl reliable
  | cons call rest inductionHypothesis =>
    have here := @call_grown _ provider _ reliable call
    have later := here.trans (inductionHypothesis here.reliable)
    simpa [keysAdded, adminLeaves] using later

/-- The admin is still found later. -/
theorem Grown.knows {earlier later : Replica} {added : Nat} (reliable : earlier.Reliable)
    (grown : Grown earlier later added) (admin : Author) :
    getAdmin.run later = .ok admin later ↔ getAdmin.run earlier = .ok admin earlier := by
  rw [get_admin_known_iff grown.reliable, get_admin_known_iff reliable, grown.admins, grown.ndebug]

/-- The authors that an update lists, as they are read. -/
def Update.names (update : Update Signature) : List Author := update.pubKeys.map Prod.fst

/-- A later update lists the authors of an earlier one first. Without a key in
between they are equal. -/
theorem Grown.offers {earlier later : Replica} {added : Nat} (reliable : earlier.Reliable)
    (grown : Grown earlier later added) {update other : Update Signature}
    (first : Offers provider earlier update) (second : Offers provider later other) :
    update.names <+: other.names ∧ other.version = update.version + UInt16.ofNat added ∧
      (added = 0 → other = update) := by
  have listed : ∀ replica : Replica, (replica.security.rows.map SecurityDao.publicKey).map Prod.fst =
      (replica.security.rows.map (·.author)).map cString := by
    intro replica
    rw [List.map_map, List.map_map]
    rfl
  have version : other.version = update.version + UInt16.ofNat added := by
    rw [second.version, first.version, grown.version]
  refine ⟨?_, version, fun none => ?_⟩
  · rw [Update.names, Update.names, first.pubKeys, second.pubKeys, listed, listed]
    exact grown.authors.map cString
  · obtain ⟨security, signature⟩ := grown.unchanged none
    have known := (grown.knows reliable _).mp second.admin
    have author : other.author = update.author := by
      rw [first.admin] at known
      injection known with same _
      exact same.symm
    have pubKeys : other.pubKeys = update.pubKeys := by
      rw [second.pubKeys, first.pubKeys, security]
    have sign : other.sign = update.sign := by
      obtain ⟨bytes, stored, reading⟩ := first.sign
      obtain ⟨otherBytes, otherStored, otherReading⟩ := second.sign
      rw [signature, stored] at otherStored
      injection otherStored with same
      rw [← same, reading] at otherReading
      exact (Option.some.inj otherReading).symm
    have sameVersion : other.version = update.version := by simpa [none] using version
    obtain ⟨otherAuthor, otherVersion, otherKeys, otherSign⟩ := other
    simp only at author sameVersion pubKeys sign
    rw [author, sameVersion, pubKeys, sign]

theorem keys_added_append (first second : List AdminCall) :
    keysAdded (first ++ second) = keysAdded first + keysAdded second := by
  simp [keysAdded]

theorem admin_leaves_append (replica : Replica) (first second : List AdminCall) :
    adminLeaves provider replica (first ++ second) =
      adminLeaves provider (adminLeaves provider replica first) second :=
  List.foldl_append

section Run

variable {start : Replica} (reliable : start.Reliable) {calls : List AdminCall}
include reliable

/-- An update shows the directory of the point at which it was returned. -/
theorem offered_point {update : Update Signature} (offered : Offered provider start calls update) :
    ∃ before, before <+: calls ∧ Offers provider (adminLeaves provider start before) update := by
  obtain ⟨before, request, later, after, split, ran⟩ := offered
  have grown := @calls_grown _ provider _ reliable before
  refine ⟨before, ⟨_, split.symm⟩, ?_⟩
  rcases template_get_update_cases grown.reliable provider request with
    ⟨other, offers, updated⟩ | ⟨reason, stopped, _, stops⟩
  · rw [ran] at updated
    injection updated with same _
    exact same ▸ offers
  · rw [ran] at stops
    cases stops

/-- The update is one of the admin. -/
theorem offered_author {update : Update Signature} (offered : Offered provider start calls update)
    {admin : Author} (known : getAdmin.run start = .ok admin start) : update.author = admin := by
  obtain ⟨before, _, offers⟩ := offered_point reliable offered
  have grown := @calls_grown _ provider _ reliable before
  have found := (grown.knows reliable _).mp offers.admin
  rw [known] at found
  injection found with same _
  exact same.symm

variable (bounded : (persistedVersion start).toNat + keysAdded calls < 65536)
include bounded

/-- Without a wrap the version counts the keys. -/
theorem version_counts {before : List AdminCall} (inside : before <+: calls) :
    (persistedVersion (adminLeaves provider start before)).toNat =
      (persistedVersion start).toNat + keysAdded before := by
  obtain ⟨rest, rfl⟩ := inside
  rw [keys_added_append] at bounded
  have grown := @calls_grown _ provider _ reliable before
  rw [grown.version, UInt16.toNat_add, UInt16.toNat_ofNat']
  omega

/-- Of two updates of the run, the one that is not newer lists a prefix of the
other's authors; if neither is newer they are the same. -/
theorem offered_ordered {update other : Update Signature}
    (first : Offered provider start calls update) (second : Offered provider start calls other)
    (older : update.version ≤ other.version) :
    update.names <+: other.names ∧ (update.version = other.version → update = other) := by
  obtain ⟨before, inside, offers⟩ := offered_point reliable first
  obtain ⟨otherBefore, otherInside, otherOffers⟩ := offered_point reliable second
  have count : update.version.toNat = (persistedVersion start).toNat + keysAdded before := by
    rw [offers.version]
    exact @version_counts _ provider _ reliable _ bounded _ inside
  have otherCount : other.version.toNat =
      (persistedVersion start).toNat + keysAdded otherBefore := by
    rw [otherOffers.version]
    exact @version_counts _ provider _ reliable _ bounded _ otherInside
  have ordered := UInt16.le_iff_toNat_le.mp older
  -- both points are prefixes of one run, so one of them is the earlier
  rcases List.prefix_or_prefix_of_prefix inside otherInside with ⟨rest, rfl⟩ | ⟨rest, rfl⟩
  · have here := (@calls_grown _ provider _ reliable before).reliable
    rw [admin_leaves_append] at otherOffers
    obtain ⟨names, _, same⟩ :=
      (@calls_grown _ provider _ here rest).offers here offers otherOffers
    refine ⟨names, fun sameVersion => (same ?_).symm⟩
    rw [keys_added_append, ← sameVersion] at otherCount
    omega
  · have here := (@calls_grown _ provider _ reliable otherBefore).reliable
    rw [admin_leaves_append] at offers
    rw [keys_added_append] at count
    obtain ⟨_, _, same⟩ := (@calls_grown _ provider _ here rest).offers here otherOffers offers
    have equal : update = other := same (by omega)
    exact ⟨equal ▸ List.prefix_rfl, fun _ => equal⟩

/-- An admin whose first version is still unsigned hands out no version zero. -/
theorem offered_versioned
    (unsigned : persistedVersion start = 0 → persistedSignature start = none)
    {update : Update Signature} (offered : Offered provider start calls update) :
    0 < update.version := by
  obtain ⟨before, inside, offers⟩ := offered_point reliable offered
  have count := @version_counts _ provider _ reliable _ bounded _ inside
  rw [← offers.version] at count
  rw [UInt16.lt_iff_toNat_lt, UInt16.toNat_zero]
  by_contra zero
  have none : (persistedVersion start).toNat = 0 ∧ keysAdded before = 0 := by omega
  obtain ⟨bytes, stored, _⟩ := offers.sign
  have grown := @calls_grown _ provider _ reliable before
  rw [(grown.unchanged none.2).2, unsigned (UInt16.toNat_inj.mp none.1)] at stored
  cases stored

end Run

end Replikon.KeysCrdt
