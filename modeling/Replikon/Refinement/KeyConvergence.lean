import Replikon.Refinement.AdminRun

/-!
# When the key directory converges

A replica takes an update of its admin in exactly when it is newer than the one
it holds, and then the longer list makes the shorter one superfluous. Whatever
the order of delivery and the repetitions, what remains is the newest update
alone.
-/

namespace Replikon.KeysCrdt

open Foundation

variable {Signature : Type}

section Delivery

variable (provider : Provider Signature)

/-- The provider accepts the signature of the update wherever it is checked. -/
def Provider.Accepts (update : Update Signature) : Prop :=
  ∀ replica : Replica, replica.Reliable →
    (provider.isValid update.sign update.author
      (update.author, update.version, update.pubKeys)).run replica = .ok true replica

/-- Merge updates in the order of their delivery. -/
def Provider.mergeAll : List (Update Signature) → Program Unit
  | [] => pure ()
  | update :: rest => do
    let _ ← provider.merge update
    Provider.mergeAll rest

/-- The replica holds the update on top of the key table it started with. -/
structure Holds (start : SecurityTable) (replica : Replica) (update : Update Signature) : Prop where
  reliable : replica.Reliable
  admin : getAdmin.run replica = .ok update.author replica
  version : persistedVersion replica = update.version
  signature : persistedSignature replica = some (provider.toBytes update.sign)
  security : replica.security = SecurityTable.keyed.upsertAll start update.pubKeys

variable {provider}

/-- Two replicas that hold the same update on the same table have the same directory. -/
theorem Holds.directory_eq {start : SecurityTable} {left right : Replica}
    {update : Update Signature} (first : Holds provider start left update)
    (second : Holds provider start right update) : directory left = directory right := by
  rw [directory, directory, first.version, second.version, first.signature, second.signature,
    first.security, second.security]

/-- Storing a missing version does not change what is held. -/
theorem Holds.settled {start : SecurityTable} {replica : Replica} {update : Update Signature}
    (holds : Holds provider start replica update) : Holds provider start (settled replica) update where
  reliable := settled_reliable holds.reliable
  admin := ((settled_grown holds.reliable).knows holds.reliable _).mpr holds.admin
  version := (settled_version replica).trans holds.version
  signature := (settled_signature replica).trans holds.signature
  security := (settled_security replica).trans holds.security

variable {replica : Replica} (reliable : replica.Reliable) {update : Update Signature}
  (known : getAdmin.run replica = .ok update.author replica) (accepted : provider.Accepts update)
include reliable known

/-- Storing a missing version leaves the admin known. -/
theorem settled_knows : getAdmin.run (settled replica) = .ok update.author (settled replica) :=
  ((settled_grown reliable).knows reliable _).mpr known

include accepted

/-- An accepted update of the admin is taken in when it is newer, and skipped otherwise. -/
theorem merge_accepted : (provider.merge update).run replica =
    if update.version ≤ persistedVersion replica then .ok .skipped (settled replica)
    else .ok .merged (provider.installed (settled replica) update) := by
  have ran := template_merge_run reliable provider known update true
    (accepted _ (settled_reliable reliable))
  rw [ran, if_neg (by simp), if_pos rfl]

/-- A newer update that makes the earlier keys superfluous is held on the table
from before them. -/
theorem merge_newer_holds {start : SecurityTable}
    (superfluous : SecurityTable.keyed.upsertAll replica.security update.pubKeys =
      SecurityTable.keyed.upsertAll start update.pubKeys)
    (newer : persistedVersion replica < update.version) :
    ∃ after, (provider.merge update).run replica = .ok .merged after ∧
      Holds provider start after update := by
  refine ⟨provider.installed (settled replica) update, ?_, ?_⟩
  · rw [merge_accepted reliable known accepted, if_neg (UInt16.not_le.mpr newer)]
  · have settledReliable := settled_reliable reliable
    have installedReliable : (provider.installed (settled replica) update).Reliable :=
      settledReliable
    have security : (provider.installed (settled replica) update).security =
        SecurityTable.keyed.upsertAll replica.security update.pubKeys := by
      rw [← settled_security replica]
      rfl
    have admins : (provider.installed (settled replica) update).security.adminNames =
        (settled replica).security.adminNames := SecurityTable.insert_all_admins _ _
    have found := (get_admin_known_iff settledReliable _).mp (settled_knows reliable known)
    refine ⟨installedReliable, (get_admin_known_iff installedReliable _).mpr ?_,
      provider_installed_version _ _ _, provider_installed_signature _ _ _,
      security.trans superfluous⟩
    rw [admins]
    exact found

end Delivery

section Deliveries

variable {provider : Provider Signature} {admin : Author} {updates : List (Update Signature)}

/-- The updates of one admin, of which each newer one lists the authors of the
older ones first. -/
structure Ordered (provider : Provider Signature) (admin : Author)
    (updates : List (Update Signature)) : Prop where
  author : ∀ update ∈ updates, update.author = admin
  accepted : ∀ update ∈ updates, provider.Accepts update
  versioned : ∀ update ∈ updates, 0 < update.version
  names : ∀ update ∈ updates, ∀ other ∈ updates, update.version ≤ other.version →
    update.names <+: other.names
  unique : ∀ update ∈ updates, ∀ other ∈ updates, update.version = other.version → update = other

variable (ordered : Ordered provider admin updates)
include ordered

/-- Delivering more updates leaves the newest of all, from the first to the last. -/
theorem merge_all_holds {start : SecurityTable} {replica : Replica} {best : Update Signature}
    (holds : Holds provider start replica best) (known : best ∈ updates)
    (delivered : List (Update Signature)) (subset : delivered ⊆ updates) :
    ∃ after newest, (provider.mergeAll delivered).run replica = .ok () after ∧
      Holds provider start after newest ∧ newest ∈ best :: delivered ∧
      ∀ update ∈ best :: delivered, update.version ≤ newest.version := by
  induction delivered generalizing replica best with
  | nil => exact ⟨replica, best, rfl, holds, List.mem_cons_self, by simp⟩
  | cons update rest inductionHypothesis =>
    obtain ⟨present, later⟩ := List.cons_subset.mp subset
    have author : best.author = update.author :=
      (ordered.author best known).trans (ordered.author update present).symm
    have found : getAdmin.run replica = .ok update.author replica := author ▸ holds.admin
    have accepted := ordered.accepted update present
    by_cases newer : best.version < update.version
    · have superfluous : SecurityTable.keyed.upsertAll replica.security update.pubKeys =
          SecurityTable.keyed.upsertAll start update.pubKeys := by
        rw [holds.security]
        exact SecurityTable.keyed.upsert_all_again start best.pubKeys update.pubKeys
          (ordered.names best known update present (UInt16.le_of_lt newer))
      obtain ⟨middle, merged, held⟩ := merge_newer_holds holds.reliable found accepted superfluous
        (holds.version ▸ newer)
      obtain ⟨after, newest, ran, final, listed, highest⟩ := inductionHypothesis held present later
      refine ⟨after, newest, ?_, final, List.mem_cons_of_mem _ listed, ?_⟩
      · rw [Provider.mergeAll, bind_ok _ merged]
        exact ran
      · intro other member
        rcases List.mem_cons.mp member with rfl | member
        · exact UInt16.le_trans (UInt16.le_of_lt newer) (highest update List.mem_cons_self)
        · exact highest other member
    · have stale := UInt16.not_lt.mp newer
      have skipped := merge_accepted holds.reliable found accepted
      rw [holds.version, if_pos stale] at skipped
      obtain ⟨after, newest, ran, final, listed, highest⟩ :=
        inductionHypothesis holds.settled known later
      refine ⟨after, newest, ?_, final, ?_, ?_⟩
      · rw [Provider.mergeAll, bind_ok _ skipped]
        exact ran
      · rcases List.mem_cons.mp listed with rfl | member
        · exact List.mem_cons_self
        · exact List.mem_cons_of_mem _ (List.mem_cons_of_mem _ member)
      · intro other member
        rcases List.mem_cons.mp member with rfl | member
        · exact highest other List.mem_cons_self
        rcases List.mem_cons.mp member with rfl | member
        · exact UInt16.le_trans stale (highest best List.mem_cons_self)
        · exact highest other (List.mem_cons_of_mem _ member)

/-- A replica of version zero that is delivered some updates holds the newest. -/
theorem delivered_holds {replica : Replica} (reliable : replica.Reliable)
    (known : getAdmin.run replica = .ok admin replica) (new : persistedVersion replica = 0)
    (delivered : List (Update Signature)) (subset : delivered ⊆ updates)
    (nonempty : delivered ≠ []) :
    ∃ after newest, (provider.mergeAll delivered).run replica = .ok () after ∧
      Holds provider replica.security after newest ∧ newest ∈ delivered ∧
      ∀ update ∈ delivered, update.version ≤ newest.version := by
  cases delivered with
  | nil => exact absurd rfl nonempty
  | cons update rest =>
    obtain ⟨present, later⟩ := List.cons_subset.mp subset
    have found : getAdmin.run replica = .ok update.author replica :=
      (ordered.author update present).symm ▸ known
    obtain ⟨middle, merged, held⟩ := merge_newer_holds reliable found
      (ordered.accepted update present) rfl (new ▸ ordered.versioned update present)
    obtain ⟨after, newest, ran, final⟩ := merge_all_holds ordered held present rest later
    refine ⟨after, newest, ?_, final⟩
    rw [Provider.mergeAll, bind_ok _ merged]
    exact ran

end Deliveries

/-- Whatever the order of delivery and the repetitions, two replicas that start
from the same key table with version zero end with the directory that the newest
update alone leaves. The run of the admin may start from any directory that is
not a signed one of version zero. -/
theorem deliveries_converge (provider : Provider Signature) (start : Replica)
    (reliable : start.Reliable) (admin : Author) (adminKnown : getAdmin.run start = .ok admin start)
    (calls : List AdminCall)
    (bounded : (persistedVersion start).toNat + keysAdded calls < 65536)
    (unsigned : persistedVersion start = 0 → persistedSignature start = none)
    (first second : List (Update Signature)) (nonempty : first ≠ [])
    (same : ∀ update, update ∈ first ↔ update ∈ second)
    (offered : ∀ update ∈ first, Offered provider start calls update)
    (accepted : ∀ update ∈ first, provider.Accepts update)
    (left right : Replica) (leftReliable : left.Reliable) (rightReliable : right.Reliable)
    (leftKnown : getAdmin.run left = .ok admin left)
    (rightKnown : getAdmin.run right = .ok admin right)
    (leftNew : persistedVersion left = 0) (rightNew : persistedVersion right = 0)
    (tables : left.security = right.security) :
    ∃ newest ∈ first, (∀ update ∈ first, update.version ≤ newest.version) ∧
      ∃ leftAfter rightAfter alone,
        (provider.mergeAll first).run left = .ok () leftAfter ∧
        (provider.mergeAll second).run right = .ok () rightAfter ∧
        (provider.merge newest).run left = .ok .merged alone ∧
        directory leftAfter = directory alone ∧ directory rightAfter = directory alone := by
  have ordered : Ordered provider admin first := {
    author := fun update member => offered_author reliable (offered update member) adminKnown
    accepted := accepted
    versioned := fun update member =>
      offered_versioned reliable bounded unsigned (offered update member)
    names := fun update member other otherMember older =>
      (offered_ordered reliable bounded (offered update member) (offered other otherMember)
        older).1
    unique := fun update member other otherMember sameVersion =>
      (offered_ordered reliable bounded (offered update member) (offered other otherMember)
        (UInt16.le_of_eq sameVersion)).2 sameVersion }
  have secondNonempty : second ≠ [] := by
    obtain ⟨update, member⟩ := List.exists_mem_of_ne_nil first nonempty
    exact List.ne_nil_of_mem ((same update).mp member)
  obtain ⟨leftAfter, newest, leftRan, leftHolds, listed, highest⟩ :=
    delivered_holds ordered leftReliable leftKnown leftNew first (List.Subset.refl _) nonempty
  obtain ⟨rightAfter, other, rightRan, rightHolds, otherListed, otherHighest⟩ :=
    delivered_holds ordered rightReliable rightKnown rightNew second
      (fun update member => (same update).mpr member) secondNonempty
  have equal : other = newest := by
    have present := (same other).mpr otherListed
    refine ordered.unique other present newest listed (UInt16.le_antisymm (highest other present) ?_)
    exact otherHighest newest ((same newest).mp listed)
  have found : getAdmin.run left = .ok newest.author left :=
    (ordered.author newest listed).symm ▸ leftKnown
  obtain ⟨alone, merged, aloneHolds⟩ := merge_newer_holds leftReliable found
    (accepted newest listed) rfl (leftNew ▸ ordered.versioned newest listed)
  refine ⟨newest, listed, highest, leftAfter, rightAfter, alone, leftRan, rightRan, merged,
    leftHolds.directory_eq aloneHolds, ?_⟩
  rw [← tables, equal] at rightHolds
  exact rightHolds.directory_eq aloneHolds

/-- A provider whose signature is the names that are listed, and which accepts
everything. -/
def trustingProvider : Provider Buffer :=
  { ed25519 Sodium.transparent sampleLayouts with
    sign := fun pairs => pure (pairs.flatMap (·.1))
    isValid := fun _ _ _ => pure true
    sign_const := fun _ _ _ => ⟨_, rfl⟩
    is_valid_const := fun _ _ _ _ _ => ⟨true, rfl⟩ }

/-- Two keys, one of them replaced, and two updates. -/
def sampleCalls : List AdminCall :=
  [.addKey (ascii "a") (Sodium.transparent.publicKey (sampleKey 1)), .getUpdate (ascii "r", 1),
    .addKey (ascii "b") (Sodium.transparent.publicKey (sampleKey 2)),
    .addKey (ascii "a") (Sodium.transparent.publicKey (sampleKey 3)), .getUpdate (ascii "r", 3)]

/-- The update after the first key. -/
def earlyUpdate : Update Buffer :=
  ⟨ascii "r", 1, [(ascii "r", Sodium.transparent.publicKey (sampleKey 9)),
    (ascii "a", Sodium.transparent.publicKey (sampleKey 1))], ascii "ra"⟩

/-- The update after the third. -/
def lateUpdate : Update Buffer :=
  ⟨ascii "r", 3, [(ascii "r", Sodium.transparent.publicKey (sampleKey 9)),
    (ascii "a", Sodium.transparent.publicKey (sampleKey 3)),
    (ascii "b", Sodium.transparent.publicKey (sampleKey 2))], ascii "rab"⟩

theorem deliveries_converge_sample : ∃ leftAfter rightAfter,
    (trustingProvider.mergeAll [earlyUpdate, lateUpdate]).run sampleFollower = .ok () leftAfter ∧
    (trustingProvider.mergeAll [lateUpdate, earlyUpdate, lateUpdate]).run
      { sampleFollower with self := ascii "d" } = .ok () rightAfter ∧
    directory leftAfter = directory rightAfter := by
  obtain ⟨_, _, _, leftAfter, rightAfter, _, leftRan, rightRan, _, left, right⟩ :=
    deliveries_converge trustingProvider sampleAdmin rfl (ascii "r") rfl sampleCalls (by decide)
      (fun _ => rfl) [earlyUpdate, lateUpdate] [lateUpdate, earlyUpdate, lateUpdate] (by simp)
      (fun update => by simp [or_left_comm, or_comm])
      (by
        intro update member
        rcases List.mem_pair.mp member with rfl | rfl
        · exact ⟨sampleCalls.take 1, (ascii "r", 1), sampleCalls.drop 2, _, rfl, rfl⟩
        · exact ⟨sampleCalls.take 4, (ascii "r", 3), [], _, rfl, rfl⟩)
      (fun _ _ _ _ => rfl) sampleFollower { sampleFollower with self := ascii "d" } rfl rfl rfl rfl
      rfl rfl rfl
  exact ⟨leftAfter, rightAfter, leftRan, rightRan, left.trans right.symm⟩

end Replikon.KeysCrdt
