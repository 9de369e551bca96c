import Replikon.Refinement.Changes
import Replikon.Refinement.Construction
import Replikon.Refinement.KeyTable

/-!
# What is stored stays

No statement of the program deletes a row of `messages`, `security` or
`key_value` for good. Over the whole life of a database, with calls that fail or
stop anywhere and with any number of restarts, the messages only grow at their
end under consecutive ids, and no author, private key, flag of an admin or
stored key of a value is lost.
-/

namespace Replikon

open Foundation

/-- The later database has all that the earlier one has. -/
structure Outlasts (before after : Replica) : Prop where
  messages : before.messages.rows <+: after.messages.rows
  consecutive : before.messages.rows.map (·.id) = List.range' 1 before.messages.rows.length →
    after.messages.rows.map (·.id) = List.range' 1 after.messages.rows.length
  authors : before.security.rows.map (·.author) <+: after.security.rows.map (·.author)
  keys : ∀ author row, before.security.find author = some row →
    ∃ later, after.security.find author = some later ∧ later.privateKey = row.privateKey ∧
      (row.isAdmin = true → later.isAdmin = true)
  values : ∀ key, (before.keyValue.find key).isSome → (after.keyValue.find key).isSome

/-- The tables are the same. -/
theorem outlasts_of_same {before after : Replica} (messages : after.messages = before.messages)
    (security : after.security = before.security) (keyValue : after.keyValue = before.keyValue) :
    Outlasts before after := by
  refine ⟨?_, ?_, ?_, ?_, ?_⟩
  · rw [messages]
  · rw [messages]
    exact id
  · rw [security]
  · rw [security]
    intro author row found
    exact ⟨row, found, rfl, id⟩
  · rw [keyValue]
    exact fun _ => id

instance : Std.Refl Outlasts := ⟨fun _ => outlasts_of_same rfl rfl rfl⟩

instance : IsTrans Replica Outlasts := ⟨by
  intro first second third early late
  refine ⟨early.messages.trans late.messages, late.consecutive ∘ early.consecutive,
    early.authors.trans late.authors, ?_, fun key => late.values key ∘ early.values key⟩
  intro author row found
  obtain ⟨middle, located, same, flagged⟩ := early.keys author row found
  obtain ⟨later, locatedLater, sameLater, flaggedLater⟩ := late.keys author middle located
  exact ⟨later, locatedLater, sameLater.trans same, flaggedLater ∘ flagged⟩⟩

/-- The greatest of consecutive numbers is the last one. -/
theorem foldr_max_range (count least : Nat) :
    (List.range' 1 count).foldr max least = max count least := by
  induction count generalizing least with
  | zero => simp
  | succ count inductionHypothesis =>
    rw [List.range'_concat, List.foldr_append, inductionHypothesis]
    simp only [List.foldr_cons, List.foldr_nil]
    omega

namespace MessagesTable

/-- With consecutive ids, the next one follows the number of rows. -/
theorem next_id_consecutive (table : MessagesTable)
    (consecutive : table.rows.map (·.id) = List.range' 1 table.rows.length) :
    table.nextId = table.rows.length + 1 := by
  rw [nextId, consecutive, foldr_max_range]
  omega

/-- A stored message is the last row, under the next id. -/
theorem insert_or_ignore_rows (table : MessagesTable) (row : MessageColumns) :
    (table.insertOrIgnore row).rows = table.rows ++ [{ row with id := table.nextId }] := by
  rw [insertOrIgnore, if_neg (by simp [table.no_conflict])]

theorem insert_or_ignore_consecutive (table : MessagesTable) (row : MessageColumns)
    (consecutive : table.rows.map (·.id) = List.range' 1 table.rows.length) :
    (table.insertOrIgnore row).rows.map (·.id) =
      List.range' 1 (table.insertOrIgnore row).rows.length := by
  rw [insert_or_ignore_rows, List.map_append, consecutive, List.length_append,
    List.length_singleton, List.range'_concat]
  simp [table.next_id_consecutive consecutive, Nat.add_comm]

end MessagesTable

namespace SecurityTable

/-- An upsert keeps every author in its place. -/
theorem upsert_authors (table : SecurityTable) (inserted : SecurityRow)
    (update : SecurityRow → PubKey × Option PrivKey × Bool) :
    table.rows.map (·.author) <+: (table.upsert inserted update).rows.map (·.author) := by
  rw [upsert_rows]
  split
  next present =>
    rw [List.map_map]
    have authors : table.rows.map ((·.author) ∘ fun row : SecurityRow =>
        if row.author = inserted.author then
          (⟨row.author, (update row).1, (update row).2.1, (update row).2.2⟩ : SecurityRow)
        else row) = table.rows.map (·.author) := by
      apply List.map_congr_left
      intro row _
      by_cases same : row.author = inserted.author <;> simp [same]
    rw [authors]
  next absent =>
    rw [List.map_append]
    exact List.prefix_append _ _

/-- An upsert that writes a public key, and perhaps the flag of an admin, keeps
private keys and flags. -/
theorem upsert_keeps (table after : SecurityTable) (author : Text) (pubKey : PubKey) (flag : Bool)
    (found : ∀ query, after.find query =
      if query = author then
        some ⟨author, pubKey, (table.otherColumns author).1, flag || (table.otherColumns author).2⟩
      else table.find query) (query : Text) (row : SecurityRow)
    (stored : table.find query = some row) :
    ∃ later, after.find query = some later ∧ later.privateKey = row.privateKey ∧
      (row.isAdmin = true → later.isAdmin = true) := by
  rw [found query]
  by_cases same : query = author
  · subst same
    rw [if_pos rfl, otherColumns, stored]
    refine ⟨_, rfl, rfl, ?_⟩
    intro flagged
    simp [flagged]
  · rw [if_neg same]
    exact ⟨row, stored, rfl, id⟩

end SecurityTable

/-- No change of a replica loses anything. -/
theorem outlasts_of_change {allowed : Write → Prop} {before after : Replica}
    (change : Change allowed before after) : Outlasts before after := by
  cases change with
  | called outcome rest script => exact outlasts_of_same rfl rfl rfl
  | read => exact outlasts_of_same rfl rfl rfl
  | wrote write permitted =>
    cases write with
    | message row =>
      refine ⟨?_, before.messages.insert_or_ignore_consecutive row, List.prefix_rfl, ?_, fun _ => id⟩
      · rw [Write.apply, MessagesTable.insert_or_ignore_rows]
        exact List.prefix_append _ _
      · intro author row found
        exact ⟨row, found, rfl, id⟩
    | intervals searchIntervals => exact outlasts_of_same rfl rfl rfl
    | publicKey author pubKey =>
      refine ⟨List.prefix_rfl, id, SecurityTable.upsert_authors _ _ _, ?_, fun _ => id⟩
      refine SecurityTable.upsert_keeps before.security _ author pubKey false fun query => ?_
      rw [Write.apply, SecurityTable.find_insert_public_only, Bool.false_or]
    | adminKey author pubKey =>
      refine ⟨List.prefix_rfl, id, SecurityTable.upsert_authors _ _ _, ?_, fun _ => id⟩
      refine SecurityTable.upsert_keeps before.security _ author pubKey true fun query => ?_
      rw [Write.apply, SecurityTable.find_insert_admin_public_only, Bool.true_or]
    | value key stored =>
      refine ⟨List.prefix_rfl, id, List.prefix_rfl, ?_, ?_⟩
      · intro author row found
        exact ⟨row, found, rfl, id⟩
      · intro query present
        rw [Write.apply, KeyValueTable.find_insert_or_replace]
        split
        · rfl
        · exact present

/-- Nor do any number of them. -/
theorem outlasts_of_changes {allowed : Write → Prop} {before after : Replica}
    (changes : Changes allowed before after) : Outlasts before after := by
  induction changes with
  | refl => exact refl_of Outlasts before
  | tail _ last inductionHypothesis =>
    exact trans_of Outlasts inductionHypothesis (outlasts_of_change last)

namespace Instance

variable {Signature : Type} (sodium : Sodium Signature) (layouts : KeysCrdt.Layouts)

/-- Every call of an instance makes changes of the known kinds only. -/
theorem keeps_call (call : Call Signature) :
    Keeps (Changes fun _ => True) (call.program sodium layouts) := by
  have any : ∀ {allowed : Write → Prop} {α : Type} {program : Program α},
      Keeps (Changes allowed) program → Keeps (Changes fun _ => True) program :=
    fun keeps => keeps.mono fun _ _ => Changes.mono fun _ _ => trivial
  cases call with
  | logHeader => exact Log.keeps_get_header.bind fun _ => keeps_pure _
  | logRequest header => exact (Log.keeps_get_request header).bind fun _ => keeps_pure _
  | logUpdate request =>
    exact (any (Log.keeps_get_update sodium request)).bind fun _ => keeps_pure _
  | logMerge update => exact (any (Log.keeps_merge sodium update)).bind fun _ => keeps_pure _
  | addNewMessage author v =>
    exact (any (Log.keeps_add_new_message sodium author v)).bind fun _ => keeps_pure _
  | keysHeader => exact (any KeysCrdt.keeps_get_header).bind fun _ => keeps_pure _
  | keysRequest header => exact (any (KeysCrdt.keeps_get_request header)).bind fun _ => keeps_pure _
  | keysUpdate request =>
    exact (any (KeysCrdt.keeps_get_update sodium request)).bind fun _ => keeps_pure _
  | keysMerge update =>
    exact (any (KeysCrdt.keeps_merge sodium layouts update)).bind fun _ => keeps_pure _
  | addKey author pubKey =>
    exact (any (KeysCrdt.keeps_add_key sodium layouts author pubKey)).bind fun _ => keeps_pure _
  | setAdmin admin pubKey =>
    exact (any (KeysCrdt.keeps_set_admin admin pubKey)).bind fun _ => keeps_pure _

/-- One thing that happens to a database: a call on its instance, with what
becomes of the SQLite calls and what the locals hold, or a new instance. -/
inductive Visit (Signature : Type) where
  | call (script : List Outcome) (stack : List SqliteResult) (call : Call Signature)
  | restart (self : SecurityUserInfo) (script : List Outcome) (stack : List SqliteResult)

/-- What a visit leaves. A call that stops leaves the database as it is then; a
new instance that cannot be used leaves it as it was. Not followed is the life of an
instance that lacks a table: a constructor without assertions passes over a failed
CREATE, and here the earlier instance stays. -/
def visit (replica : Replica) : Visit Signature → Replica
  | .call script stack call =>
    (call.program sodium layouts).leaves { replica with script := script, stack := stack }
  | .restart self script stack =>
    match (construct self).run (opening replica.ndebug replica.database script) with
    | .ok privKey after => (ofOpening self privKey stack after).getD replica
    | .error _ _ => replica

variable {sodium layouts}

/-- An instance that was constructed over existing tables has these tables. -/
theorem of_opening_tables {self : SecurityUserInfo} {privKey : PrivKey} {stack : List SqliteResult}
    {script : List Outcome} {replica next : Replica} {after : Opening}
    (retains : Retains (opening replica.ndebug replica.database script) after)
    (built : ofOpening self privKey stack after = some next) :
    next.messages = replica.messages ∧ next.security = replica.security ∧
      next.keyValue = replica.keyValue := by
  have contents : after.database.contents =
      (replica.messages, replica.security, replica.keyValue) := retains.contents
  simp only [ofOpening, Option.bind_eq_bind, Option.bind_eq_some_iff, Option.pure_def,
    Option.some.injEq] at built
  obtain ⟨messages, storedMessages, searchIntervals, _, security, storedSecurity, keyValue,
    storedValues, rfl⟩ := built
  rw [Database.contents, storedMessages, storedSecurity, storedValues] at contents
  simpa using contents

/-- A visit loses nothing. -/
theorem visit_outlasts (replica : Replica) (next : Visit Signature) :
    Outlasts replica (visit sodium layouts replica next) := by
  cases next with
  | call script stack call =>
    have kept := keeps_leaves (keeps_call sodium layouts call)
      { replica with script := script, stack := stack }
    have start : Outlasts replica { replica with script := script, stack := stack } :=
      outlasts_of_same rfl rfl rfl
    exact trans_of Outlasts start (outlasts_of_changes kept)
  | restart self script stack =>
    have retained := keeps_construct self (opening replica.ndebug replica.database script)
    unfold Guarantees at retained
    rw [visit]
    cases ended : (construct self).run (opening replica.ndebug replica.database script) with
    | error reason after => exact refl_of Outlasts replica
    | ok privKey after =>
      rw [ended] at retained
      dsimp only
      cases built : ofOpening self privKey stack after with
      | none => exact refl_of Outlasts replica
      | some next =>
        obtain ⟨messages, security, keyValue⟩ := of_opening_tables retained built
        exact outlasts_of_same messages security keyValue

/-- Over any life of a database, whatever fails or stops in it and however often
it is opened again, what was stored at a time is there at every later time. -/
theorem stored_for_good (sodium : Sodium Signature) (layouts : KeysCrdt.Layouts)
    (replica : Replica) (earlier later : List (Visit Signature)) :
    Outlasts (earlier.foldl (visit sodium layouts) replica)
      ((earlier ++ later).foldl (visit sodium layouts) replica) := by
  rw [List.foldl_append]
  exact keeps_steps _ visit_outlasts _ later

end Instance

end Replikon
