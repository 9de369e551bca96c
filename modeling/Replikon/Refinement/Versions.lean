import Replikon.Foundation.Runs
import Replikon.Refinement.Admins

/-!
# The version of the key directory

`addKey` counts a sixteen-bit version up and `merge` takes in newer updates only.
The version therefore moves forward along every run as long as no key is added at
the last version: there it wraps to zero, and a peer that follows the admin finds
the new header older than what it has.
-/

namespace Replikon.KeysCrdt

open Foundation

variable {Signature : Type} (sodium : Sodium Signature) (layouts : Layouts)

/-- Runs of calls: a call that stops ends with what it leaves. -/
def callStep (replica : Replica) (call : Call Signature) : Option Replica :=
  some (call.leaves sodium layouts replica)

/-- The call adds a key. -/
def Call.AddsKey : Call Signature → Prop
  | .addKey _ _ => True
  | _ => False

/-- The header reports the version before and after the call. An added key makes
it greater, and then every peer that reported the earlier version for the same
admin asks for the new header; a merge does not make it smaller. -/
def Forward (replica : Replica) (call : Call Signature) : Prop :=
  ∃ admin before later final, getHeader.run replica = .ok (admin, before) (settled replica) ∧
    getHeader.run (call.leaves sodium layouts replica) = .ok (admin, later) final ∧
    match call with
    | .addKey _ _ => before < later ∧ ∀ peer peerAfter : Replica,
        getHeader.run peer = .ok (admin, before) peerAfter →
          (getRequest (admin, later)).run peer = .ok (some (admin, later)) peerAfter
    | _ => before ≤ later

variable {sodium layouts}

/-- With one admin the header names it and the version. -/
theorem get_header_run {replica : Replica} (reliable : replica.Reliable) (name : Author)
    (only : replica.security.adminNames = [name]) :
    getHeader.run replica = .ok (cString name, persistedVersion replica) (settled replica) := by
  have known := ((finds_admin_iff reliable (cString name)).mpr ⟨name, only, rfl⟩).2
  rw [getHeader, bind_ok _ known, bind_ok _ (get_persisted_version_run reliable)]
  rfl

/-- A header with a greater version than the reported one is asked for. -/
theorem get_request_newer {peer after : Replica} {admin : Author} {reported version : Version}
    (header : getHeader.run peer = .ok (admin, reported) after) (newer : reported < version) :
    (getRequest (admin, version)).run peer = .ok (some (admin, version)) after := by
  rw [getRequest, bind_ok _ header]
  simp only
  rw [bind_ok _ (assert_run (admin == admin) (by simp)), if_neg (UInt16.not_le.mpr newer)]
  rfl

/-- The version after a call that sets nobody: one more for an added key, and no
less for a merge. -/
theorem version_after {replica : Replica} (reliable : replica.Reliable) (call : Call Signature) :
    match call with
    | .addKey _ _ => persistedVersion (call.leaves sodium layouts replica) =
        persistedVersion replica + 1
    | .merge _ => persistedVersion replica ≤ persistedVersion (call.leaves sodium layouts replica)
    | .setAdmin _ _ => True := by
  cases call with
  | setAdmin admin pubKey => trivial
  | addKey author pubKey =>
    simp only
    rw [Call.leaves, Program.leaves, add_key_run reliable]
    exact key_added_version _ _ _ _
  | merge update =>
    simp only
    have left := template_merge_leaves reliable (ed25519 sodium layouts) update
    rw [ed25519_merge] at left
    rw [Call.leaves]
    rcases left with same | same | ⟨newer, same⟩ <;> rw [same]
    · exact UInt16.le_refl _
    · rw [settled_version]
      exact UInt16.le_refl _
    · have taken : persistedVersion ((ed25519 sodium layouts).installed (settled replica) update) =
          update.version := installed_version sodium (settled replica) update
      rw [taken]
      exact UInt16.le_of_lt newer

/-- A sixteen-bit number is smaller than its successor unless it is the last one. -/
theorem lt_succ_iff (version : Version) : version < version + 1 ↔ version ≠ 65535 := by
  rw [UInt16.lt_iff_toNat_lt, UInt16.toNat_add, ne_eq, ← UInt16.toNat_inj]
  have bound := version.toNat_lt
  have last : (65535 : UInt16).toNat = 65535 := by decide
  simp only [last, UInt16.toNat_one]
  omega

/-- A call that sets nobody moves the version forward, unless it adds a key at
the last version. -/
theorem forward_iff {replica : Replica} (reliable : replica.Reliable) (name : Author)
    (only : replica.security.adminNames = [name]) (call : Call Signature)
    (unset : call.sets = none) :
    Forward sodium layouts replica call ↔
      (call.AddsKey → persistedVersion replica ≠ 65535) := by
  obtain ⟨kept, sameAdmins⟩ := @call_keeps_admins _ sodium layouts _ reliable call unset
  have header := get_header_run reliable name only
  have headerAfter := get_header_run kept name (sameAdmins.trans only)
  have version := @version_after _ sodium layouts _ reliable call
  cases call with
  | setAdmin admin pubKey => simp [Call.sets] at unset
  | addKey author pubKey =>
    simp only at version
    rw [version] at headerAfter
    constructor
    · rintro ⟨admin, before, later, final, reported, reportedAfter, forward, _⟩ _
      rw [header] at reported
      rw [headerAfter] at reportedAfter
      injection reported with reported _
      injection reportedAfter with reportedAfter _
      have sameBefore := congrArg Prod.snd reported
      have sameLater := congrArg Prod.snd reportedAfter
      simp only at sameBefore sameLater
      rw [← sameBefore, ← sameLater] at forward
      exact (lt_succ_iff _).mp forward
    · intro below
      have newer := (lt_succ_iff (persistedVersion replica)).mpr (below trivial)
      exact ⟨_, _, _, _, header, headerAfter, newer,
        fun peer peerAfter reported => get_request_newer reported newer⟩
  | merge update =>
    simp only at version
    constructor
    · intro _ adds
      exact absurd adds id
    · intro _
      exact ⟨_, _, _, _, header, headerAfter, version⟩

/-- Along a run of `addKey` and `merge` the version moves forward exactly when no
key is added at the last version. -/
theorem versions_forward_iff (start : Replica) (reliable : start.Reliable) (name : Author)
    (only : start.security.adminNames = [name]) (calls : List (Call Signature))
    (unset : ∀ call ∈ calls, call.sets = none) :
    Along (callStep sodium layouts) (Forward sodium layouts) start calls ↔
      Along (callStep sodium layouts)
        (fun replica call => call.AddsKey → persistedVersion replica ≠ 65535) start calls := by
  let invariant : Replica → Prop := fun replica =>
    replica.Reliable ∧ replica.security.adminNames = [name]
  refine @along_congr _ _ (callStep sodium layouts) invariant (fun call => call.sets = none) _ _
    ?_ ?_ start calls ⟨reliable, only⟩ unset
  · rintro replica call next ⟨nowReliable, nowOnly⟩ nobody stepped
    obtain ⟨kept, sameAdmins⟩ := @call_keeps_admins _ sodium layouts _ nowReliable call nobody
    have same : call.leaves sodium layouts replica = next := Option.some.inj stepped
    exact same ▸ ⟨kept, sameAdmins.trans nowOnly⟩
  · rintro replica call ⟨nowReliable, nowOnly⟩ nobody
    exact forward_iff nowReliable name nowOnly call nobody

/-- The admin's instance adds two keys, with an update merged in between. -/
theorem versions_forward_iff_sample :
    Along (callStep Sodium.transparent sampleLayouts)
        (Forward Sodium.transparent sampleLayouts) sampleAdmin
        [.addKey (ascii "a") (Sodium.transparent.publicKey (sampleKey 1)), .merge usurpingUpdate,
          .addKey (ascii "c") (Sodium.transparent.publicKey (sampleKey 3))] ↔
      Along (callStep Sodium.transparent sampleLayouts)
        (fun replica call => call.AddsKey → persistedVersion replica ≠ 65535) sampleAdmin
        [.addKey (ascii "a") (Sodium.transparent.publicKey (sampleKey 1)), .merge usurpingUpdate,
          .addKey (ascii "c") (Sodium.transparent.publicKey (sampleKey 3))] :=
  versions_forward_iff sampleAdmin rfl (ascii "r") rfl _ (by simp [Call.sets])

/-- Adding keys counts the version up by their number. -/
theorem version_after_adds {replica : Replica} (reliable : replica.Reliable) (author : Author)
    (pubKey : PubKey) (count : Nat) :
    ∃ after, run (callStep sodium layouts) replica
        (List.replicate count (.addKey author pubKey)) = some after ∧
      after.Reliable ∧ after.security.adminNames = replica.security.adminNames ∧
      persistedVersion after = persistedVersion replica + UInt16.ofNat count := by
  induction count generalizing replica with
  | zero => exact ⟨replica, rfl, reliable, rfl, (UInt16.add_zero _).symm⟩
  | succ count inductionHypothesis =>
    obtain ⟨kept, sameAdmins⟩ :=
      @call_keeps_admins _ sodium layouts _ reliable (.addKey author pubKey) rfl
    have version := @version_after _ sodium layouts _ reliable (.addKey author pubKey)
    simp only at version
    obtain ⟨after, ran, afterReliable, admins, later⟩ := inductionHypothesis kept
    refine ⟨after, ?_, afterReliable, admins.trans sameAdmins, ?_⟩
    · rw [List.replicate_succ, run, callStep, Option.bind_some, ran]
    · rw [later, version, UInt16.add_assoc, UInt16.add_comm 1, UInt16.ofNat_add]
      rfl

/-- The admin that adds a key 65536 times ends with version zero. -/
theorem version_wraps :
    ¬ ∀ calls : List (Call Buffer), (∀ call ∈ calls, call.sets = none) →
      Along (callStep Sodium.transparent sampleLayouts)
        (Forward Sodium.transparent sampleLayouts) sampleAdmin calls := by
  intro forward
  let add : Call Buffer := .addKey (ascii "a") (Sodium.transparent.publicKey (sampleKey 1))
  obtain ⟨last, ran, reliable, admins, version⟩ := @version_after_adds _ Sodium.transparent
    sampleLayouts sampleAdmin rfl (ascii "a") (Sodium.transparent.publicKey (sampleKey 1)) 65535
  have adds : ∀ call ∈ List.replicate 65535 add ++ [add], call.sets = none := by
    intro call member
    rcases List.mem_append.mp member with repeated | final
    · exact List.eq_of_mem_replicate repeated ▸ rfl
    · exact List.mem_singleton.mp final ▸ rfl
  have along := forward (List.replicate 65535 add ++ [add]) adds
  obtain ⟨lastForward, _⟩ := (along.rest _ _ _ last ran) _ rfl
  have notLast := (forward_iff reliable (ascii "r") (admins.trans rfl) add rfl).mp lastForward trivial
  exact notLast (version.trans (by decide))

end Replikon.KeysCrdt
