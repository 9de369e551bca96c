import Replikon.Refinement.DirectoryWrites

/-!
# When a change of the directory is all or nothing

After an interruption the directory is the old or the complete new one exactly
when what was lost, or what was made, changes nothing. The version is written
before the keys: a stop in between leaves a replica that believes to have them.
-/

namespace Replikon.KeysCrdt

open Foundation

section Consistency

open DirectoryWrite

/-- Writing some of the listed keys leaves each author the same key and the same
place as writing all of them. -/
def LosesNothing (table : SecurityTable) (written listed : PubKeyMap) : Prop :=
  (∀ author, (lastGiven written author).or (SecurityTable.keyed.value table author) =
    (lastGiven listed author).or (SecurityTable.keyed.value table author)) ∧
  addNew (SecurityTable.keyed.keys table) (written.map Prod.fst) =
    addNew (SecurityTable.keyed.keys table) (listed.map Prod.fst)

/-- The last key written for an author is the one that was stored. -/
def AddsNothing (table : SecurityTable) (written : PubKeyMap) : Prop :=
  ∀ author pubKey, lastGiven written author = some pubKey →
    SecurityTable.keyed.value table author = some pubKey

/-- With the version, everything else that makes a difference is written as
well; without it, nothing that makes a difference is. -/
def Consistent (replica : Replica) (listed : PubKeyMap) (number : Version) (whole : Buffer)
    (writes : List DirectoryWrite) : Prop :=
  (version number ∈ writes ∧
    (signature whole ∈ writes ∨ persistedSignature replica = some whole) ∧
    LosesNothing replica.security (writes.filterMap storedKey) listed) ∨
  (version number ∉ writes ∧
    (∀ bytes, signature bytes ∈ writes → persistedSignature replica = some bytes) ∧
    AddsNothing replica.security (writes.filterMap storedKey))

/-- A value that one write alone stores is stored when that write is made. -/
theorem mem_stored {α : Type} {stored : DirectoryWrite → Option α} {write : α → DirectoryWrite}
    (only : ∀ other value, stored other = some value ↔ other = write value)
    (writes : List DirectoryWrite) (value : α) :
    value ∈ writes.filterMap stored ↔ write value ∈ writes := by
  simp only [List.mem_filterMap, only, exists_eq_right]

/-- A stored version is one of a write. -/
theorem mem_stored_version (writes : List DirectoryWrite) (number : Version) :
    number ∈ writes.filterMap storedVersion ↔ version number ∈ writes := by
  refine mem_stored (fun other value => ?_) writes number
  cases other <;> simp [storedVersion]

/-- A stored signature is one of a write. -/
theorem mem_stored_signature (writes : List DirectoryWrite) (bytes : Buffer) :
    bytes ∈ writes.filterMap storedSignature ↔ signature bytes ∈ writes := by
  refine mem_stored (fun other value => ?_) writes bytes
  cases other <;> simp [storedSignature]

/-- The last of some values that are all the same, if there is one. -/
theorem last_of_same {α : Type} (values : List α) (same : α)
    (all : ∀ value ∈ values, value = same) :
    (same ∈ values ∧ values.getLast? = some same) ∨ (same ∉ values ∧ values.getLast? = none) := by
  cases last : values.getLast? with
  | none =>
    rw [List.getLast?_eq_none_iff.mp last]
    exact .inr ⟨List.not_mem_nil, rfl⟩
  | some value =>
    have member := List.mem_of_getLast? last
    have equal := all value member
    exact .inl ⟨equal ▸ member, congrArg some equal⟩

/-- All writes of a call: besides keys, one version and one signature. -/
def Carries (writes : List DirectoryWrite) (number : Version) (carried : Buffer) : Prop :=
  ∀ write ∈ writes, write = settle ∨ write = version number ∨ write = signature carried ∨
    ∃ entry, write = key entry

/-- There is no other version. -/
theorem Carries.version {writes : List DirectoryWrite} {number other : Version} {carried : Buffer}
    (carries : Carries writes number carried) (member : version other ∈ writes) :
    other = number := by
  rcases carries _ member with same | same | same | ⟨_, same⟩ <;> cases same
  rfl

/-- There is no other signature. -/
theorem Carries.signature {writes : List DirectoryWrite} {number : Version}
    {carried other : Buffer} (carries : Carries writes number carried)
    (member : signature other ∈ writes) : other = carried := by
  rcases carries _ member with same | same | same | ⟨_, same⟩ <;> cases same
  rfl

section Outcomes

variable {writes : List DirectoryWrite} {number : Version} {carried : Buffer}
  (carries : Carries writes number carried) (replica : Replica)
include carries

/-- The version is the written one or the old one. -/
theorem written_version : (version number ∈ writes ∧ (written replica writes).1 = number) ∨
    (version number ∉ writes ∧ (written replica writes).1 = persistedVersion replica) := by
  have last := last_of_same (writes.filterMap storedVersion) number
    fun other member => carries.version ((mem_stored_version _ _).mp member)
  simp only [mem_stored_version] at last
  rcases last with ⟨made, last⟩ | ⟨unmade, last⟩
  · exact .inl ⟨made, by rw [written, last]; rfl⟩
  · exact .inr ⟨unmade, by rw [written, last]; rfl⟩

/-- The signature is the written one or the old one. -/
theorem written_signature :
    (signature carried ∈ writes ∧ (written replica writes).2.1 = some carried) ∨
      (signature carried ∉ writes ∧ (written replica writes).2.1 = persistedSignature replica) := by
  have last := last_of_same (writes.filterMap storedSignature) carried
    fun other member => carries.signature ((mem_stored_signature _ _).mp member)
  simp only [mem_stored_signature] at last
  rcases last with ⟨made, last⟩ | ⟨unmade, last⟩
  · exact .inl ⟨made, by rw [written, last]; rfl⟩
  · exact .inr ⟨unmade, by rw [written, last]; rfl⟩

variable {replica} (newer : number ≠ persistedVersion replica)
include newer

/-- The directory is the old one exactly when nothing that differs was written. -/
theorem written_old_iff : written replica writes = directory replica ↔
    version number ∉ writes ∧
      (∀ bytes, signature bytes ∈ writes → persistedSignature replica = some bytes) ∧
      AddsNothing replica.security (writes.filterMap storedKey) := by
  have table : (written replica writes).2.2 = replica.security.rows ↔
      AddsNothing replica.security (writes.filterMap storedKey) := by
    refine Iff.trans ⟨SecurityTable.ext_rows, congrArg SecurityTable.rows⟩ ?_
    exact SecurityTable.keyed.upsert_all_eq_self_iff _ _
  rw [← table, directory, Prod.ext_iff, Prod.ext_iff]
  refine and_congr ?_ (and_congr ?_ Iff.rfl)
  · rcases written_version carries replica with ⟨made, same⟩ | ⟨unmade, same⟩
    · simp only [same, made, not_true_eq_false, iff_false]
      exact newer
    · simp [same, unmade]
  · rcases written_signature carries replica with ⟨made, same⟩ | ⟨unmade, same⟩
    · simp only [same]
      constructor
      · intro held bytes member
        rw [carries.signature member]
        exact held.symm
      · exact fun held => (held carried made).symm
    · simp only [same, true_iff]
      intro bytes member
      exact absurd (carries.signature member ▸ member) unmade

/-- The directory is the complete new one exactly when nothing that makes a
difference was lost. -/
theorem written_new_iff {listed : PubKeyMap} {whole : Buffer}
    (agrees : SecurityTable.keyed.upsertAll replica.security (writes.filterMap storedKey) =
      SecurityTable.keyed.upsertAll replica.security listed → carried = whole) :
    written replica writes = (number, some whole,
        (SecurityTable.keyed.upsertAll replica.security listed).rows) ↔
      version number ∈ writes ∧
        (signature whole ∈ writes ∨ persistedSignature replica = some whole) ∧
        LosesNothing replica.security (writes.filterMap storedKey) listed := by
  have table : (written replica writes).2.2 =
      (SecurityTable.keyed.upsertAll replica.security listed).rows ↔
        LosesNothing replica.security (writes.filterMap storedKey) listed := by
    refine Iff.trans ⟨SecurityTable.ext_rows, congrArg SecurityTable.rows⟩ ?_
    exact SecurityTable.keyed.upsert_all_eq_iff _ _ _
  have agreed : LosesNothing replica.security (writes.filterMap storedKey) listed →
      carried = whole := fun lossless =>
    agrees ((SecurityTable.keyed.upsert_all_eq_iff _ _ _).mpr lossless)
  rw [Prod.ext_iff, Prod.ext_iff, table]
  refine and_congr ?_ (and_congr_left fun lossless => ?_)
  · rcases written_version carries replica with ⟨made, same⟩ | ⟨unmade, same⟩
    · simp [same, made]
    · simp only [same, unmade, iff_false]
      exact newer.symm
  · obtain rfl := agreed lossless
    rcases written_signature carries replica with ⟨made, same⟩ | ⟨unmade, same⟩
    · simp [same, made]
    · simp [same, unmade]

/-- The directory is the old or the complete new one exactly when the writes are
consistent. -/
theorem written_consistent_iff {listed : PubKeyMap} {whole : Buffer}
    (agrees : SecurityTable.keyed.upsertAll replica.security (writes.filterMap storedKey) =
      SecurityTable.keyed.upsertAll replica.security listed → carried = whole) :
    (written replica writes = directory replica ∨
      written replica writes = (number, some whole,
        (SecurityTable.keyed.upsertAll replica.security listed).rows)) ↔
      Consistent replica listed number whole writes := by
  rw [written_old_iff carries newer, written_new_iff carries newer agrees, Consistent, or_comm]

end Outcomes

/-- What a call leaves of the directory is what was written. -/
theorem Leaves.directory {α : Type} {program : Program α} {replica : Replica}
    {calls : List Outcome} {writes : List (Fate × DirectoryWrite)}
    (left : Leaves program replica calls writes) (stack : List SqliteResult) :
    directory (program.leaves (replica.facing calls stack)) = written replica (made writes) := by
  obtain ⟨script, after, same⟩ := left stack
  rw [same]
  exact directory_apply_all replica (made writes)

/-- Facing the calls, the program leaves the old directory or the one that it
leaves without an interruption. -/
def AllOrNothing {α : Type} (program : Program α) (replica : Replica) (calls : List Outcome) :
    Prop :=
  directory (program.leaves (replica.facing calls replica.stack)) = directory replica ∨
    directory (program.leaves (replica.facing calls replica.stack)) =
      directory (program.leaves replica)

variable {Signature : Type} (sodium : Sodium Signature) (layouts : Layouts) {replica : Replica}
  (reliable : replica.Reliable) (interruption : Interruption)

/-- Reading the version writes nothing but the zero. -/
theorem mem_settle_writes {ending : Ending} {write : DirectoryWrite}
    (member : write ∈ (settleWrites replica ending).map Prod.snd) : write = settle := by
  rw [settleWrites] at member
  split at member
  · simpa using member
  · simp at member

/-- The table that `addKey` lists has the keys that were written. -/
theorem listed_table_eq (author : Author) (pubKey : PubKey) :
    listedTable replica author pubKey interruption =
      SecurityTable.keyed.upsertAll replica.security
        ((made (addKeyWrites sodium layouts replica author pubKey interruption)).filterMap
          storedKey) := by
  have stored : (key (author, pubKey)).storedKey = some (author, pubKey) := rfl
  rw [addKeyWrites, listedTable]
  generalize written : settleWrites replica interruption.settle ++ _ = tail
  have keyless : (made tail).filterMap storedKey = [] := by
    refine List.filterMap_eq_nil_iff.mpr fun write member => ?_
    have listed := (made_sublist tail).subset member
    rw [← written, List.map_append] at listed
    rcases List.mem_append.mp listed with settles | others
    · rw [mem_settle_writes settles]
      rfl
    · rcases List.mem_pair.mp others with rfl | rfl <;> rfl
  cases fate : (interruption.key 0).fate with
  | made =>
    rw [if_pos rfl, made_cons_made, List.filterMap_cons_some stored, keyless]
    rfl
  | failed =>
    rw [if_neg (by simp), made_cons_failed, keyless]
    rfl
  | stopped =>
    rw [if_neg (by simp), made_cons_stopped]
    rfl

/-- The writes of keys write nothing else. -/
theorem mem_key_writes {endings : Nat → Ending} {pubKeys : PubKeyMap} {write : DirectoryWrite}
    (member : write ∈ (keyWrites endings pubKeys).map Prod.snd) : ∃ entry, write = key entry := by
  obtain ⟨pair, listed, rfl⟩ := List.mem_map.mp member
  obtain ⟨index, inside, rfl⟩ := List.mem_mapIdx.mp listed
  exact ⟨_, rfl⟩

include reliable

/-- What a `merge` that takes an update in had checked, and what it leaves. -/
theorem merge_passed {update : Update Signature} {complete : Replica}
    (passes : (merge sodium layouts update).run replica = .ok .merged complete) :
    ∃ admin, getAdmin.run replica = .ok admin replica ∧
      (admin = update.author ∨ replica.ndebug = true) ∧
      persistedVersion replica < update.version ∧ checked sodium layouts replica update = true ∧
      complete = installed sodium (settled replica) update := by
  rcases get_admin_cases reliable with ⟨admin, known⟩ | ⟨reason, unknown⟩
  · rw [merge_run reliable known] at passes
    split_ifs at passes with stops old valid
    · cases passes
    · injection passes with _ same
      refine ⟨admin, known, ?_, UInt16.not_le.mp old, valid, same.symm⟩
      by_cases same : admin = update.author
      · exact .inl same
      · exact .inr (by simpa [same] using stops)
    · cases passes
  · rw [← ed25519_merge, template_merge_unknown_run _ unknown] at passes
    cases passes

/-- `merge` of an update that passes the checks is all or nothing exactly when
its writes are consistent. -/
theorem merge_all_or_nothing_iff {update : Update Signature} {complete : Replica}
    (passes : (merge sodium layouts update).run replica = .ok .merged complete) :
    AllOrNothing (merge sodium layouts update) replica (mergeCalls replica update interruption) ↔
      Consistent replica update.pubKeys update.version (sodium.toBytes update.sign)
        (made (mergeWrites sodium replica update interruption)) := by
  obtain ⟨admin, known, author, newer, valid, rfl⟩ := merge_passed sodium layouts reliable passes
  have left := merge_leaves reliable known update author newer valid interruption
  have whole : directory ((merge sodium layouts update).leaves replica) =
      (update.version, some (sodium.toBytes update.sign),
        (SecurityTable.keyed.upsertAll replica.security update.pubKeys).rows) := by
    have number : persistedVersion (installed sodium (settled replica) update) = update.version :=
      installed_version sodium (settled replica) update
    have bytes : persistedSignature (installed sodium (settled replica) update) =
        some (sodium.toBytes update.sign) :=
      provider_installed_signature (ed25519 sodium layouts) (settled replica) update
    have security : (installed sodium (settled replica) update).security =
        SecurityTable.keyed.upsertAll replica.security update.pubKeys := by
      rw [← settled_security replica]
      rfl
    rw [Program.leaves, passes, directory, number, bytes, security]
  have carries : Carries (made (mergeWrites sodium replica update interruption)) update.version
      (sodium.toBytes update.sign) := by
    intro write member
    have listed := (made_sublist _).subset member
    simp only [mergeWrites, List.map_append, List.map_cons, List.mem_append, List.mem_cons] at listed
    rcases listed with settles | same | same | keys
    · exact .inl (mem_settle_writes settles)
    · exact .inr (.inl same)
    · exact .inr (.inr (.inl same))
    · exact .inr (.inr (.inr (mem_key_writes keys)))
  rw [AllOrNothing, left.directory, whole]
  exact written_consistent_iff carries (UInt16.ne_of_lt newer).symm fun _ => rfl

/-- `addKey` is all or nothing exactly when its writes are consistent. -/
theorem add_key_all_or_nothing_iff (author : Author) (pubKey : PubKey) :
    AllOrNothing (addKey sodium layouts author pubKey) replica
        (addKeyCalls replica author pubKey interruption) ↔
      Consistent replica [(author, pubKey)] (persistedVersion replica + 1)
        (tableSignature sodium layouts replica (replica.security.insertPublicOnly author pubKey))
        (made (addKeyWrites sodium layouts replica author pubKey interruption)) := by
  have left := @add_key_leaves _ sodium layouts replica author pubKey interruption
  have whole : directory ((addKey sodium layouts author pubKey).leaves replica) =
      (persistedVersion replica + 1, some (tableSignature sodium layouts replica
        (replica.security.insertPublicOnly author pubKey)),
        (SecurityTable.keyed.upsertAll replica.security [(author, pubKey)]).rows) := by
    rw [Program.leaves, add_key_run reliable, directory, key_added_version, key_added_signature,
      key_added_security]
    rfl
  have carries : Carries (made (addKeyWrites sodium layouts replica author pubKey interruption))
      (persistedVersion replica + 1) (tableSignature sodium layouts replica
        (listedTable replica author pubKey interruption)) := by
    intro write member
    have listed := (made_sublist _).subset member
    simp only [addKeyWrites, List.map_cons, List.map_append, List.map_nil, List.mem_cons,
      List.mem_append, List.not_mem_nil, or_false] at listed
    rcases listed with same | settles | same | same
    · exact .inr (.inr (.inr ⟨_, same⟩))
    · exact .inl (mem_settle_writes settles)
    · exact .inr (.inl same)
    · exact .inr (.inr (.inl same))
  have raised : persistedVersion replica + 1 ≠ persistedVersion replica := by
    intro same
    have numbers := congrArg UInt16.toNat same
    have bounded := (persistedVersion replica).toNat_lt
    simp only [UInt16.toNat_add, UInt16.reduceToNat] at numbers
    omega
  rw [AllOrNothing, left.directory, whole]
  refine written_consistent_iff carries raised fun complete => ?_
  rw [listed_table_eq sodium layouts, complete]
  rfl

end Consistency

/-- A change of the directory whose writes are interrupted is all or nothing
exactly when the writes that were made are consistent. -/
theorem directory_all_or_nothing_iff {Signature : Type} (sodium : Sodium Signature)
    (layouts : Layouts) (replica : Replica) (reliable : replica.Reliable)
    (interruption : Interruption) :
    (∀ (update : Update Signature) (complete : Replica),
      (merge sodium layouts update).run replica = .ok .merged complete →
        (AllOrNothing (merge sodium layouts update) replica
            (mergeCalls replica update interruption) ↔
          Consistent replica update.pubKeys update.version (sodium.toBytes update.sign)
            (made (mergeWrites sodium replica update interruption)))) ∧
    ∀ author pubKey,
      (AllOrNothing (addKey sodium layouts author pubKey) replica
          (addKeyCalls replica author pubKey interruption) ↔
        Consistent replica [(author, pubKey)] (persistedVersion replica + 1)
          (tableSignature sodium layouts replica
            (replica.security.insertPublicOnly author pubKey))
          (made (addKeyWrites sodium layouts replica author pubKey interruption))) :=
  ⟨fun _ _ passes => merge_all_or_nothing_iff sodium layouts reliable interruption passes,
    fun author pubKey => add_key_all_or_nothing_iff sodium layouts reliable interruption author pubKey⟩

/-- An update of the admin with a key for `a`. -/
def keyUpdate : Update Buffer where
  author := ascii "r"
  version := 1
  pubKeys := [(ascii "a", Sodium.transparent.publicKey (sampleKey 1))]
  sign := Sodium.transparent.signDetached
    (toCheck sampleLayouts
      (ascii "r", 1, [(ascii "a", Sodium.transparent.publicKey (sampleKey 1))])) (sampleKey 9)

/-- The process stops before the signature. -/
def stopsAfterVersion : Interruption := ⟨.made, .made, .stopped 0, fun _ => .made⟩

/-- The update passes the checks of a replica that knows the admin. -/
theorem key_update_passes : (merge Sodium.transparent sampleLayouts keyUpdate).run
    (guardedReplica false) =
      .ok .merged (installed Sodium.transparent (settled (guardedReplica false)) keyUpdate) := by
  have reliable : (guardedReplica false).Reliable := rfl
  have ran := @merge_run _ Sodium.transparent sampleLayouts _ reliable _
    (get_admin_run reliable adminRow rfl) keyUpdate
  rw [if_neg (by decide), if_neg (by decide), if_pos (by decide +kernel)] at ran
  exact ran

theorem directory_all_or_nothing_iff_sample :
    AllOrNothing (merge Sodium.transparent sampleLayouts keyUpdate) (guardedReplica false)
        (mergeCalls (guardedReplica false) keyUpdate stopsAfterVersion) ↔
      Consistent (guardedReplica false) keyUpdate.pubKeys 1 keyUpdate.sign
        (made (mergeWrites Sodium.transparent (guardedReplica false) keyUpdate
          stopsAfterVersion)) :=
  (directory_all_or_nothing_iff Sodium.transparent sampleLayouts (guardedReplica false) rfl
    stopsAfterVersion).1 keyUpdate _ key_update_passes

/-- A process that stops after the version leaves a replica that advertises a
version without its keys and does not ask for them again. -/
theorem version_without_keys :
    (∃ complete, (merge Sodium.transparent sampleLayouts keyUpdate).run (guardedReplica false) =
      .ok .merged complete) ∧
    ¬ AllOrNothing (merge Sodium.transparent sampleLayouts keyUpdate) (guardedReplica false)
      (mergeCalls (guardedReplica false) keyUpdate stopsAfterVersion) ∧
    ∃ stopped, stopped = (merge Sodium.transparent sampleLayouts keyUpdate).leaves
        ((guardedReplica false).facing
          (mergeCalls (guardedReplica false) keyUpdate stopsAfterVersion) []) ∧
      (stopped.security.find (ascii "a")).isNone ∧
      ∃ after, (getRequest (ascii "r", 1)).run (stopped.facing [] []) = .ok none after := by
  refine ⟨⟨_, key_update_passes⟩, ?_, _, rfl, by decide +kernel, _, rfl⟩
  unfold AllOrNothing
  decide +kernel

end Replikon.KeysCrdt
