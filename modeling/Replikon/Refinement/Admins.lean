import Replikon.Refinement.Propagation

/-!
# Who is admin after any sequence of calls

`setAdmin` raises the flag of one row and no statement ever lowers a flag: the
upsert of `addKey` and `merge` keeps it. The admins of a replica are therefore
all the authors that were ever set. There is exactly one, the last one set, when
every call named the same author; its name is read through a C string.
-/

namespace Replikon

open Foundation

namespace SecurityTable

/-- The authors of the rows flagged as admin. -/
def adminNames (table : SecurityTable) : List Text := (table.rows.filter (·.isAdmin)).map (·.author)

/-- No author is an admin twice. -/
theorem admin_names_nodup (table : SecurityTable) : table.adminNames.Nodup :=
  table.unique.sublist (List.filter_sublist.map _)

/-- The rows after an upsert. -/
theorem upsert_rows (table : SecurityTable) (inserted : SecurityRow)
    (update : SecurityRow → PubKey × Option PrivKey × Bool) :
    (table.upsert inserted update).rows =
      if inserted.author ∈ table.rows.map (·.author) then
        table.rows.map fun row =>
          if row.author = inserted.author then
            ⟨row.author, (update row).1, (update row).2.1, (update row).2.2⟩
          else row
      else table.rows ++ [inserted] := by
  unfold upsert
  split <;> rfl

/-- The upsert of a key flags nobody and clears no flag. -/
theorem insert_public_only_admins (table : SecurityTable) (author : Text) (pubKey : PubKey) :
    (table.insertPublicOnly author pubKey).adminNames = table.adminNames := by
  rw [adminNames, adminNames, insertPublicOnly, upsert_rows]
  split
  · rw [List.filter_map, List.map_map]
    have flags : ((fun row : SecurityRow => row.isAdmin) ∘ fun row : SecurityRow =>
        if row.author = author then (⟨row.author, pubKey, row.privateKey, row.isAdmin⟩ : SecurityRow)
        else row) = fun row => row.isAdmin := by
      funext row
      by_cases same : row.author = author <;> simp [same]
    rw [flags]
    refine List.map_congr_left fun row _ => ?_
    by_cases same : row.author = author <;> simp [same]
  · simp

/-- The upsert of an admin flags exactly one more author. -/
theorem mem_insert_admin (table : SecurityTable) (author : Text) (pubKey : PubKey) (name : Text) :
    name ∈ (table.insertAdminPublicOnly author pubKey).adminNames ↔
      name = author ∨ name ∈ table.adminNames := by
  simp only [adminNames, insertAdminPublicOnly, upsert_rows, List.mem_map, List.mem_filter]
  split
  next present =>
    obtain ⟨old, stored, sameAuthor⟩ := present
    constructor
    · rintro ⟨row, ⟨member, flagged⟩, rfl⟩
      obtain ⟨before, inTable, rfl⟩ := List.mem_map.mp member
      by_cases same : before.author = author
      · exact .inl (by simp [same])
      · rw [if_neg same] at flagged ⊢
        exact .inr ⟨before, ⟨inTable, flagged⟩, rfl⟩
    · rintro (rfl | ⟨row, ⟨inTable, flagged⟩, rfl⟩)
      · exact ⟨⟨old.author, pubKey, old.privateKey, true⟩,
          ⟨List.mem_map.mpr ⟨old, stored, by simp [sameAuthor]⟩, rfl⟩, sameAuthor⟩
      · refine ⟨_, ⟨List.mem_map_of_mem inTable, ?_⟩, ?_⟩ <;>
          by_cases same : row.author = author <;> simp [same, flagged]
  next absent =>
    constructor
    · rintro ⟨row, ⟨member, flagged⟩, rfl⟩
      rcases List.mem_append.mp member with inTable | added
      · exact .inr ⟨row, ⟨inTable, flagged⟩, rfl⟩
      · rw [List.mem_singleton.mp added]
        exact .inl rfl
    · rintro (rfl | ⟨row, ⟨inTable, flagged⟩, rfl⟩)
      · exact ⟨_, ⟨List.mem_append_right _ (List.mem_singleton_self _), rfl⟩, rfl⟩
      · exact ⟨row, ⟨List.mem_append_left _ inTable, flagged⟩, rfl⟩

/-- So does a list of keys. -/
theorem insert_all_admins (pubKeys : List (Author × PubKey)) (table : SecurityTable) :
    (pubKeys.foldl (fun table entry => table.insertPublicOnly entry.1 entry.2) table).adminNames =
      table.adminNames := by
  induction pubKeys generalizing table with
  | nil => rfl
  | cons entry rest inductionHypothesis =>
    rw [List.foldl_cons, inductionHypothesis, insert_public_only_admins]

end SecurityTable

namespace KeysCrdt

variable {Signature : Type} (sodium : Sodium Signature) (layouts : Layouts)

/-- The calls that write to the key table. -/
inductive Call (Signature : Type) where
  | setAdmin (admin : Author) (pubKey : PubKey)
  | addKey (author : Author) (pubKey : PubKey)
  | merge (update : Update Signature)

/-- What a call leaves, whether it returns or stops. -/
def Call.leaves (replica : Replica) : Call Signature → Replica
  | .setAdmin admin pubKey => (KeysCrdt.setAdmin admin pubKey).leaves replica
  | .addKey author pubKey => (KeysCrdt.addKey sodium layouts author pubKey).leaves replica
  | .merge update => (KeysCrdt.merge sodium layouts update).leaves replica

/-- What a sequence of calls leaves. -/
def leavesAll (replica : Replica) (calls : List (Call Signature)) : Replica :=
  calls.foldl (Call.leaves sodium layouts) replica

/-- The author that a call sets as admin. -/
def Call.sets : Call Signature → Option Author
  | .setAdmin admin _ => some admin
  | _ => none

/-- The authors that are set as admin, in order. -/
def namesSet (calls : List (Call Signature)) : List Author := calls.filterMap Call.sets

/-- `getAdmin` finds exactly one admin row and returns the author. -/
def FindsAdmin (replica : Replica) (author : Author) : Prop :=
  (∃ info, SecurityDao.getAdminsUserInfo.run replica = .ok (.ok [info]) replica) ∧
    getAdmin.run replica = .ok author replica

variable {sodium layouts}

/-- A call that sets nobody leaves every flag as it was. -/
theorem call_keeps_admins {replica : Replica} (reliable : replica.Reliable)
    (call : Call Signature) (unset : call.sets = none) :
    (call.leaves sodium layouts replica).Reliable ∧
      (call.leaves sodium layouts replica).security.adminNames = replica.security.adminNames := by
  cases call with
  | setAdmin admin pubKey => simp [Call.sets] at unset
  | addKey author pubKey =>
    rw [Call.leaves, Program.leaves, add_key_run reliable]
    exact ⟨key_added_reliable _ _ _ reliable,
      by simp [SecurityTable.insert_public_only_admins]⟩
  | merge update =>
    have left := template_merge_leaves reliable (ed25519 sodium layouts) update
    have settledReliable := settled_reliable reliable
    rw [ed25519_merge] at left
    rw [Call.leaves]
    rcases left with same | same | ⟨_, same⟩ <;> rw [same]
    · exact ⟨reliable, rfl⟩
    · exact ⟨settledReliable, by simp⟩
    · exact ⟨settledReliable, by simp [Provider.installed, SecurityTable.insert_all_admins]⟩

/-- A call flags the author it sets and leaves the other flags. -/
theorem mem_admins_of_call {replica : Replica} (reliable : replica.Reliable)
    (call : Call Signature) :
    (call.leaves sodium layouts replica).Reliable ∧
      ∀ name, name ∈ (call.leaves sodium layouts replica).security.adminNames ↔
        call.sets = some name ∨ name ∈ replica.security.adminNames := by
  cases set : call.sets with
  | none =>
    obtain ⟨kept, same⟩ := @call_keeps_admins _ sodium layouts _ reliable call set
    exact ⟨kept, fun name => by simp [same]⟩
  | some author =>
    cases call with
    | setAdmin admin pubKey =>
      rw [Call.leaves, set_admin_leaves reliable]
      refine ⟨reliable, fun name => ?_⟩
      rw [SecurityTable.mem_insert_admin, ← set, Call.sets, Option.some.injEq, eq_comm]
    | addKey _ _ => simp [Call.sets] at set
    | merge _ => simp [Call.sets] at set

/-- After a sequence of calls the admins are the earlier ones and all that were set. -/
theorem mem_admins_of_calls {replica : Replica} (reliable : replica.Reliable)
    (calls : List (Call Signature)) :
    (leavesAll sodium layouts replica calls).Reliable ∧
      ∀ name, name ∈ (leavesAll sodium layouts replica calls).security.adminNames ↔
        name ∈ namesSet calls ∨ name ∈ replica.security.adminNames := by
  induction calls generalizing replica with
  | nil => exact ⟨reliable, fun name => by simp [leavesAll, namesSet]⟩
  | cons call rest inductionHypothesis =>
    obtain ⟨kept, here⟩ := @mem_admins_of_call _ sodium layouts _ reliable call
    obtain ⟨keptLater, later⟩ := inductionHypothesis kept
    refine ⟨keptLater, fun name => ?_⟩
    have continued : leavesAll sodium layouts replica (call :: rest) =
        leavesAll sodium layouts (call.leaves sodium layouts replica) rest := rfl
    rw [continued, later, here]
    cases set : call.sets with
    | none => simp [namesSet, set]
    | some other => simp [namesSet, set, eq_comm, or_assoc, or_left_comm]

/-- What `getAdmin` does with the rows that it reads. -/
def adminOf (infos : List SecurityUserInfo) : Program Author := do
  replikonAssert (infos.length == 1)
  match infos.getLast? with
  | some info => pure info.author
  | none => stop .undefined

theorem get_admin_eq : getAdmin = (do adminOf (← valueOf (← SecurityDao.getAdminsUserInfo))) := rfl

/-- The last of the rows is the admin, if there is one row or nothing asserts that. -/
theorem admin_of_run_iff (infos : List SecurityUserInfo) (replica : Replica) (admin : Author) :
    (adminOf infos).run replica = .ok admin replica ↔
      (infos.length = 1 ∨ replica.ndebug = true) ∧ infos.getLast?.map (·.author) = some admin := by
  rcases assert_cases (infos.length == 1) replica with ⟨passes, ran⟩ | ⟨fails, build, stops⟩
  · have passed : infos.length = 1 ∨ replica.ndebug = true := by simpa using passes
    rw [adminOf, bind_ok _ ran]
    cases infos.getLast? with
    | none => simp [passed, stop, EStateM.run]
    | some info => simp [passed]
  · have several : ¬ infos.length = 1 := by simpa using fails
    rw [adminOf, bind_error _ stops]
    simp [several, build]

/-- Whether the admin is found depends on the names of the admins and the build. -/
theorem get_admin_known_iff {replica : Replica} (reliable : replica.Reliable) (admin : Author) :
    getAdmin.run replica = .ok admin replica ↔
      (replica.security.adminNames.length = 1 ∨ replica.ndebug = true) ∧
        replica.security.adminNames.getLast?.map cString = some admin := by
  have length : ((replica.security.rows.filter (·.isAdmin)).map SecurityDao.userInfo).length =
      replica.security.adminNames.length := by
    simp [SecurityTable.adminNames]
  have last : ((replica.security.rows.filter (·.isAdmin)).map SecurityDao.userInfo).getLast?.map
      (·.author) = replica.security.adminNames.getLast?.map cString := by
    rw [SecurityTable.adminNames, List.getLast?_map, List.getLast?_map, Option.map_map,
      Option.map_map]
    rfl
  rw [get_admin_eq, bind_ok _ (SecurityDao.get_admins_user_info_run reliable),
    bind_ok _ (value_of_run _), admin_of_run_iff, length, last]

/-- `getAdmin` finds one admin by the given name exactly when that is the only
admin and the name is read back whole. -/
theorem finds_admin_iff {replica : Replica} (reliable : replica.Reliable) (author : Author) :
    FindsAdmin replica author ↔
      ∃ name, replica.security.adminNames = [name] ∧ cString name = author := by
  have infos := SecurityDao.get_admins_user_info_run reliable
  constructor
  · rintro ⟨⟨info, found⟩, known⟩
    rw [infos] at found
    injection found with found _
    injection found with found
    obtain ⟨row, only, _⟩ := List.map_eq_singleton_iff.mp found
    rw [get_admin_run reliable row only] at known
    injection known with same _
    exact ⟨row.author, by rw [SecurityTable.adminNames, only]; rfl, same⟩
  · rintro ⟨name, only, rfl⟩
    obtain ⟨row, found, rfl⟩ := List.map_eq_singleton_iff.mp only
    exact ⟨⟨SecurityDao.userInfo row, by rw [infos, found]; rfl⟩, get_admin_run reliable row found⟩

/-- After any sequence of calls that sets an admin at least once, `getAdmin`
finds exactly the last one set, and only it, exactly when every call that sets
an admin names that author and the name has no NUL. -/
theorem last_admin_found_iff (start : Replica) (reliable : start.Reliable)
    (none : start.security.adminNames = []) (calls : List (Call Signature)) (last : Author)
    (lastSet : (namesSet calls).getLast? = some last) :
    FindsAdmin (leavesAll sodium layouts start calls) last ↔
      (∀ name ∈ namesSet calls, name = last) ∧ (0 : Byte) ∉ last := by
  obtain ⟨kept, admins⟩ := @mem_admins_of_calls _ sodium layouts _ reliable calls
  have set : last ∈ namesSet calls := List.mem_of_getLast? lastSet
  simp only [none, List.not_mem_nil, or_false] at admins
  rw [finds_admin_iff kept, ← c_string_eq_iff]
  constructor
  · rintro ⟨name, only, same⟩
    have alone : ∀ other, other ∈ namesSet calls ↔ other = name := by
      intro other
      rw [← admins, only, List.mem_singleton]
    have lastName : last = name := (alone last).mp set
    exact ⟨fun other member => ((alone other).mp member).trans lastName.symm,
      (congrArg cString lastName).trans same⟩
  · rintro ⟨alone, whole⟩
    refine ⟨last, ?_, whole⟩
    refine List.Perm.eq_singleton ?_
    refine (List.perm_ext_iff_of_nodup (SecurityTable.admin_names_nodup _)
      (List.nodup_singleton last)).mpr fun name => ?_
    rw [admins, List.mem_singleton]
    exact ⟨alone name, fun same => same ▸ set⟩

/-- A new instance. -/
def newInstance : Replica :=
  .fresh false (ascii "c") (Sodium.transparent.publicKey (sampleKey 4)) (sampleKey 4) []

/-- The admin set twice, with a key added in between. -/
theorem last_admin_found_iff_sample :
    FindsAdmin (leavesAll Sodium.transparent sampleLayouts newInstance
      [.setAdmin (ascii "r") (Sodium.transparent.publicKey (sampleKey 9)),
        .addKey (ascii "a") (Sodium.transparent.publicKey (sampleKey 1)),
        .setAdmin (ascii "r") (Sodium.transparent.publicKey (sampleKey 8))]) (ascii "r") :=
  (last_admin_found_iff newInstance rfl rfl _ (ascii "r") rfl).mpr ⟨by decide, by decide⟩

/-- A second admin does not replace the first one. -/
theorem second_admin_not_alone :
    ¬ ∀ (calls : List (Call Buffer)) (last : Author), (namesSet calls).getLast? = some last →
      FindsAdmin (leavesAll Sodium.transparent sampleLayouts newInstance calls) last := by
  intro found
  have reliable : newInstance.Reliable := rfl
  let calls : List (Call Buffer) :=
    [.setAdmin (ascii "a") (Sodium.transparent.publicKey (sampleKey 1)),
      .setAdmin (ascii "b") (Sodium.transparent.publicKey (sampleKey 2))]
  obtain ⟨kept, admins⟩ := @mem_admins_of_calls _ Sodium.transparent sampleLayouts _ reliable calls
  obtain ⟨name, only, _⟩ := (finds_admin_iff kept (ascii "b")).mp (found calls (ascii "b") rfl)
  have first := (admins (ascii "a")).mpr (.inl (by decide))
  have second := (admins (ascii "b")).mpr (.inl (by decide))
  rw [only, List.mem_singleton] at first second
  exact absurd (first.trans second.symm) (by decide)

end KeysCrdt

end Replikon
