import Replikon.Refinement.Interruptions
import Replikon.Refinement.Merge

/-!
# What a merge reports and what it stores

The database answers every call of a merge, with success or with an error. An
insertion stores its row when the calls that the row needs complete; it reports
success when all its calls do and the local it accumulates their results in
happens to start as OK. A merge reports MERGED when one insertion reports success.
-/

namespace Replikon

/-- What a replica meets next: which of its calls complete, and what its
uninitialised locals hold. -/
structure Ahead where
  answers : List Bool
  locals : List SqliteResult

namespace Ahead

variable (ahead : Ahead)

/-- Whether a later call completes. Calls behind the end of the list do. -/
def completes (call : Nat) : Bool := ahead.answers[call]?.getD true

/-- What is met after some calls and locals. -/
def skip (calls locals : Nat) : Ahead := ⟨ahead.answers.drop calls, ahead.locals.drop locals⟩

/-- The check of a signature looks a key up with up to three calls. -/
def looksUp : Bool := ahead.completes 0 && ahead.completes 1 && ahead.completes 2

/-- A look-up that fails makes no further call. -/
def afterLookUp : Ahead :=
  if ahead.completes 0 then if ahead.completes 1 then ahead.skip 3 0 else ahead.skip 2 0
  else ahead.skip 1 0

/-- The insertion that comes next reports success: its local starts as OK, and
preparing, the five binds and the step complete. -/
def Reports : Prop := ahead.locals.head?.getD .ok = .ok ∧ ∀ call < 7, ahead.completes call = true

/-- The insertion that comes next stores its row: preparing, binding the author
and the lamport, and the step complete. A NULL in another column is stored. -/
def Stores : Prop := ∀ call ∈ [0, 1, 4, 6], ahead.completes call = true

instance : Decidable ahead.Reports := inferInstanceAs (Decidable (_ ∧ _))

instance : Decidable ahead.Stores := inferInstanceAs (Decidable (∀ call ∈ _, _))

/-- An insertion that cannot be prepared makes no further call and has no local. -/
def afterInsertion : Ahead := if ahead.completes 0 then ahead.skip 7 1 else ahead.skip 1 0

/-- What is reported is stored. -/
theorem Reports.stores {ahead : Ahead} (reports : ahead.Reports) : ahead.Stores := by
  intro call member
  exact reports.2 call (by revert call; decide)

/-- An insertion that stores was prepared. -/
theorem Stores.prepared {ahead : Ahead} (stores : ahead.Stores) : ahead.completes 0 = true :=
  stores 0 (by decide)

end Ahead

/-- The replica with what it meets next. -/
def Replica.meeting (replica : Replica) (ahead : Ahead) : Replica :=
  replica.facing (ahead.answers.map fun completes => if completes then .completes else .fails)
    ahead.locals

section Calls

variable {α : Type} (replica : Replica) (ahead : Ahead) (calls locals : Nat)

/-- A call completes or fails as its answer says. -/
theorem call_answered (code : Int) :
    (call code).run (replica.meeting (ahead.skip calls locals)) =
      .ok (if ahead.completes calls then toEnum code else .error)
        (replica.meeting (ahead.skip (calls + 1) locals)) := by
  have answer : ahead.completes calls = (ahead.answers.drop calls).head?.getD true := by
    rw [Ahead.completes, List.head?_drop]
  have later : ahead.answers.drop (calls + 1) = (ahead.answers.drop calls).tail := List.tail_drop.symm
  simp only [Ahead.skip, later, answer]
  cases ahead.answers.drop calls with
  | nil => rfl
  | cons completes rest => cases completes <;> rfl

theorem prepare_answered :
    prepareStatement.run (replica.meeting (ahead.skip calls locals)) =
      .ok (if ahead.completes calls then .ok () else .error .sqliteError)
        (replica.meeting (ahead.skip (calls + 1) locals)) := by
  rw [prepareStatement, bind_ok _ (call_answered replica ahead calls locals _)]
  cases ahead.completes calls <;> rfl

theorem bind_answered (value : α) :
    (Replikon.bind value).run (replica.meeting (ahead.skip calls locals)) =
      .ok (if ahead.completes calls then .ok else .error,
          if ahead.completes calls then some value else none)
        (replica.meeting (ahead.skip (calls + 1) locals)) := by
  rw [Replikon.bind, bind_ok _ (call_answered replica ahead calls locals _)]
  cases ahead.completes calls <;> rfl

/-- A step that fails finds no row. -/
theorem fetch_row_answered (found : Option α) : ∃ result,
    (fetchRow found.toList).run (replica.meeting (ahead.skip calls locals)) =
      .ok (result, if ahead.completes calls then found else none)
        (replica.meeting (ahead.skip (calls + 1) locals)) := by
  cases found with
  | none =>
    refine ⟨if ahead.completes calls then .ok else .error, ?_⟩
    rw [Option.toList_none, fetchRow, bind_ok _ (call_answered replica ahead calls locals _),
      ite_self]
    rfl
  | some row =>
    refine ⟨if ahead.completes calls then .row else .error, ?_⟩
    rw [Option.toList_some, fetchRow, bind_ok _ (call_answered replica ahead calls locals _)]
    cases ahead.completes calls <;> rfl

/-- A step that completes has its effect. -/
theorem execute_answered (statement : Replica → Replica)
    (blind : ∀ other, statement (replica.meeting other) = (statement replica).meeting other) :
    (execute fun replica => some (statement replica)).run
        (replica.meeting (ahead.skip calls locals)) =
      .ok (if ahead.completes calls then .ok else .error)
        ((if ahead.completes calls then statement replica else replica).meeting
          (ahead.skip (calls + 1) locals)) := by
  rw [execute, bind_ok _ (call_answered replica ahead calls locals _)]
  cases ahead.completes calls with
  | false => rfl
  | true =>
    change EStateM.Result.ok SqliteResult.ok
      (statement (replica.meeting (ahead.skip (calls + 1) locals))) = _
    rw [blind]
    rfl

/-- A local takes what it finds. -/
theorem uninitialised_meeting :
    uninitialised.run (replica.meeting (ahead.skip calls locals)) =
      .ok ((ahead.locals.drop locals).head?.getD .ok)
        (replica.meeting (ahead.skip calls (locals + 1))) := by
  rw [uninitialised_run, Ahead.skip, Ahead.skip, ← List.tail_drop]
  rfl

end Calls

section Check

variable (replica : Replica) (ahead : Ahead)

/-- Nothing is skipped at first. -/
theorem meeting_skip_zero : replica.meeting (ahead.skip 0 0) = replica.meeting ahead := rfl

/-- A key is found if all calls of the look-up complete. -/
theorem SecurityDao.get_user_info_answered (author : Author) : ∃ result,
    (SecurityDao.getUserInfo author).run (replica.meeting ahead) =
        .ok result (replica.meeting ahead.afterLookUp) ∧
      (ahead.looksUp = true → result = .ok ((replica.security.find author).map userInfo)) ∧
      (ahead.looksUp = false → ∀ userInfo, result ≠ .ok (some userInfo)) := by
  rw [← meeting_skip_zero, SecurityDao.getUserInfo,
    bind_ok _ (prepare_answered replica ahead 0 0)]
  cases prepared : ahead.completes 0 with
  | false =>
    refine ⟨.error .sqliteError, ?_, ?_, ?_⟩
    · rw [Ahead.afterLookUp, prepared]
      rfl
    · simp [Ahead.looksUp, prepared]
    · simp
  | true =>
    simp only [returnIfError, if_true]
    rw [bind_ok _ (bind_answered replica ahead 1 0 author)]
    cases bound : ahead.completes 1 with
    | false =>
      refine ⟨.error .sqliteError, ?_, ?_, ?_⟩
      · rw [Ahead.afterLookUp, prepared, bound]
        rfl
      · simp [Ahead.looksUp, bound]
      · simp
    | true =>
      obtain ⟨step, fetched⟩ :=
        fetch_row_answered replica ahead 2 0 (replica.security.find author)
      simp only [returnIfResultError, if_true, Option.bind_some]
      have after : ahead.afterLookUp = ahead.skip 3 0 := by
        rw [Ahead.afterLookUp, prepared, bound]
        rfl
      rw [bind_ok _ get_run, after]
      change ∃ result, (fetchRow (replica.security.find author).toList >>= _).run
        (replica.meeting (ahead.skip 2 0)) = _ ∧ _
      rw [bind_ok _ fetched]
      refine ⟨.ok ((if ahead.completes 2 then replica.security.find author else none).map userInfo),
        ?_, ?_, ?_⟩
      · cases (if ahead.completes 2 then replica.security.find author else none) <;> rfl
      · intro looked
        have stepped : ahead.completes 2 = true := by
          simpa [Ahead.looksUp, prepared, bound] using looked
        rw [stepped]
        rfl
      · intro failed
        have stepped : ahead.completes 2 = false := by
          simpa [Ahead.looksUp, prepared, bound] using failed
        rw [stepped]
        simp

/-- A signature passes if the key was looked up and it verifies under that key. -/
theorem SecurityProvider.is_valid_answered {Signature T : Type} (sodium : Sodium Signature)
    (serialize : T → Buffer) (signature : Signature) (author : Text) (value : T) :
    (SecurityProvider.isValid sodium serialize signature author value).run
        (replica.meeting ahead) =
      .ok (ahead.looksUp && replica.verifies sodium author (serialize value) signature)
        (replica.meeting ahead.afterLookUp) := by
  obtain ⟨result, ran, complete, failed⟩ := SecurityDao.get_user_info_answered replica ahead author
  rw [SecurityProvider.isValid, bind_ok _ ran]
  cases looked : ahead.looksUp with
  | true =>
    rw [complete looked]
    unfold Replica.verifies
    cases replica.security.find author <;> rfl
  | false =>
    cases result with
    | error error => rfl
    | ok found =>
      cases found with
      | none => rfl
      | some userInfo => exact absurd rfl (failed looked userInfo)

end Check

namespace MessagesDao

/-- Results are accumulated to OK when all are OK. -/
theorem or_eq_ok (left right : SqliteResult) : (left ||| right) = .ok ↔ left = .ok ∧ right = .ok := by
  change (if left = .ok ∧ right = .ok then SqliteResult.ok else .error) = .ok ↔ _
  split <;> simp_all

theorem or_eq_ite (left right : SqliteResult) {success : Prop} [Decidable success]
    (agrees : (left ||| right) = .ok ↔ success) :
    (left ||| right) = if success then .ok else .error := by
  rw [or_eq_ok] at agrees
  change (if left = .ok ∧ right = .ok then SqliteResult.ok else .error) = _
  simp only [agrees]

/-- The step of an insertion adds a row when author and lamport are not NULL. -/
theorem insert_row_stores (replica : Replica) (author body : Option Text)
    (originTs lamport : Option Int64) (sign : Option Buffer) (ahead : Ahead) : ∃ rows,
    (insertRow author body originTs lamport sign replica).meeting ahead =
        (replica.store rows).meeting ahead ∧
      (rows ≠ [] ↔ author ≠ none ∧ lamport ≠ none) := by
  cases author with
  | none => exact ⟨[], rfl, by simp⟩
  | some author =>
    cases lamport with
    | none => exact ⟨[], rfl, by simp⟩
    | some lamport =>
      exact ⟨[⟨author, body.getD [], originTs.getD 0, lamport, sign.getD []⟩], rfl, by simp⟩

variable (replica : Replica) (ahead : Ahead)

/-- The results of a prepared insertion, accumulated into its local. -/
theorem accumulated_result (prepared : ahead.completes 0 = true) :
    ((ahead.locals.drop 0).head?.getD .ok ||| (if ahead.completes 1 then .ok else .error) |||
        (if ahead.completes 2 then .ok else .error) |||
        (if ahead.completes 3 then .ok else .error) |||
        (if ahead.completes 4 then .ok else .error) |||
        (if ahead.completes 5 then .ok else .error) |||
        (if ahead.completes 6 then .ok else .error) : SqliteResult) =
      if ahead.Reports then .ok else .error := by
  have all : ahead.Reports ↔ ahead.locals.head?.getD .ok = .ok ∧ ahead.completes 1 = true ∧
      ahead.completes 2 = true ∧ ahead.completes 3 = true ∧ ahead.completes 4 = true ∧
      ahead.completes 5 = true ∧ ahead.completes 6 = true := by
    refine and_congr_right fun _ => ⟨fun completes => ?_, ?_⟩
    · exact ⟨completes 1 (by decide), completes 2 (by decide), completes 3 (by decide),
        completes 4 (by decide), completes 5 (by decide), completes 6 (by decide)⟩
    · rintro ⟨first, second, third, fourth, fifth, sixth⟩ call below
      match call with
      | 0 => exact prepared
      | 1 => exact first
      | 2 => exact second
      | 3 => exact third
      | 4 => exact fourth
      | 5 => exact fifth
      | 6 => exact sixth
  refine or_eq_ite _ _ ?_
  simp [all, or_eq_ok, and_assoc]

/-- What an insertion reports and whether it stores its row. -/
theorem insert_message_answered (signedMsg : SignedChatMeesage) : ∃ rows,
    (insertMessage signedMsg).run (replica.meeting ahead) =
        .ok (if ahead.Reports then .ok else .error)
          ((replica.store rows).meeting ahead.afterInsertion) ∧
      (rows ≠ [] ↔ ahead.Stores) := by
  rw [← meeting_skip_zero, insertMessage, bind_ok _ (prepare_answered replica ahead 0 0)]
  cases prepared : ahead.completes 0 with
  | false =>
    have idle : ¬ ahead.Stores := by
      intro stores
      rw [stores.prepared] at prepared
      cases prepared
    have silent : ¬ ahead.Reports := fun reports => idle reports.stores
    refine ⟨[], ?_, by simpa using idle⟩
    rw [if_neg silent, Ahead.afterInsertion, prepared]
    rfl
  | true =>
    have blind : ∀ author body originTs lamport sign other,
        insertRow author body originTs lamport sign (replica.meeting other) =
          (insertRow author body originTs lamport sign replica).meeting other := by
      intro author body originTs lamport sign other
      cases author <;> cases lamport <;> rfl
    simp only [if_true]
    rw [bind_ok _ (uninitialised_meeting replica ahead 1 0),
      bind_ok _ (bind_answered replica ahead 1 1 _), bind_ok _ (bind_answered replica ahead 2 1 _),
      bind_ok _ (bind_answered replica ahead 3 1 _), bind_ok _ (bind_answered replica ahead 4 1 _),
      bind_ok _ (bind_answered replica ahead 5 1 _),
      bind_ok _ (execute_answered replica ahead 6 1 _ (blind _ _ _ _ _))]
    have after : ahead.afterInsertion = ahead.skip 7 1 := by
      rw [Ahead.afterInsertion, prepared]
      rfl
    rw [after, ← accumulated_result ahead prepared]
    cases stepped : ahead.completes 6 with
    | false =>
      refine ⟨[], rfl, ?_⟩
      simp [Ahead.Stores, stepped]
    | true =>
      obtain ⟨rows, stored, counted⟩ := insert_row_stores replica
        (if ahead.completes 1 then some signedMsg.msg.author else none)
        (if ahead.completes 2 then some signedMsg.msg.body else none)
        (if ahead.completes 3 then some signedMsg.msg.originTs.toInt64 else none)
        (if ahead.completes 4 then some signedMsg.msg.lamport.toInt64 else none)
        (if ahead.completes 5 then some signedMsg.sign else none) (ahead.skip 7 1)
      refine ⟨rows, ?_, ?_⟩
      · rw [← stored]
        rfl
      · rw [counted]
        simp [Ahead.Stores, prepared, stepped]

end MessagesDao

namespace Log

variable {Signature : Type} (sodium : Sodium Signature)

/-- The two loops of a merge as one over the offers of the update. -/
def mergeOffers : List (Offer Signature) → Bool → Program Bool
  | [], merged => pure merged
  | offer :: rest, merged => do
    if ← SecurityProvider.isValid sodium Serde.chatMessage offer.signature offer.key offer.message then
      let res ← MessagesDao.insertMessage ⟨offer.message, sodium.toBytes offer.signature⟩
      mergeOffers rest (merged || res = .ok)
    else mergeOffers rest merged

/-- The inner loop visits the offers under its key. -/
theorem merge_offers_append (key : Text) (messages : List (Signature × ChatMessage))
    (rest : List (Offer Signature)) (merged : Bool) :
    mergeOffers sodium (offersUnder key messages ++ rest) merged =
      mergeMessages sodium key messages merged >>= mergeOffers sodium rest := by
  induction messages generalizing merged with
  | nil => exact (pure_bind merged _).symm
  | cons entry later inductionHypothesis =>
    rw [mergeMessages, bind_assoc]
    refine bind_congr fun valid => ?_
    cases valid with
    | false => exact inductionHypothesis merged
    | true =>
      simp only [if_true]
      rw [bind_assoc]
      exact bind_congr fun res => inductionHypothesis _

/-- The outer loop visits those of all keys. -/
theorem merge_entries_eq (entries : List (Text × List (Signature × ChatMessage))) (merged : Bool) :
    mergeEntries sodium entries merged =
      mergeOffers sodium (entries.flatMap fun entry => offersUnder entry.1 entry.2) merged := by
  induction entries generalizing merged with
  | nil => rfl
  | cons entry later inductionHypothesis =>
    rw [mergeEntries, List.flatMap_cons, merge_offers_append]
    exact bind_congr fun merged => inductionHypothesis merged

/-- What the insertions of a merge meet. An offer is inserted when its key is
looked up and the signature verifies. -/
def insertions (replica : Replica) : List (Offer Signature) → Ahead → List Ahead
  | [], _ => []
  | offer :: rest, ahead =>
    if ahead.looksUp && offer.verifies sodium replica then
      ahead.afterLookUp :: insertions replica rest ahead.afterLookUp.afterInsertion
    else insertions replica rest ahead.afterLookUp

/-- Stored messages do not matter for what is inserted. -/
theorem insertions_store (replica : Replica) (rows : List MessageColumns)
    (offers : List (Offer Signature)) (ahead : Ahead) :
    insertions sodium (replica.store rows) offers ahead = insertions sodium replica offers ahead := by
  induction offers generalizing ahead with
  | nil => rfl
  | cons offer rest inductionHypothesis =>
    rw [insertions, insertions, inductionHypothesis, inductionHypothesis]
    rfl

/-- Whether an insertion reports, and whether one stores, by induction on the offers. -/
theorem merge_offers_answered (replica : Replica) (offers : List (Offer Signature)) (ahead : Ahead)
    (merged : Bool) : ∃ rows final,
    (mergeOffers sodium offers merged).run (replica.meeting ahead) =
        .ok (merged || (insertions sodium replica offers ahead).any fun insertion =>
          insertion.Reports) ((replica.store rows).meeting final) ∧
      (rows ≠ [] ↔ ∃ insertion ∈ insertions sodium replica offers ahead, insertion.Stores) := by
  induction offers generalizing replica ahead merged with
  | nil =>
    refine ⟨[], ahead, ?_, by simp [insertions]⟩
    simp [mergeOffers, insertions, EStateM.run_pure, Replica.store_nothing]
  | cons offer rest inductionHypothesis =>
    rw [mergeOffers, bind_ok _ (SecurityProvider.is_valid_answered replica ahead sodium _ _ _ _)]
    have passes : (ahead.looksUp && replica.verifies sodium offer.key
        (Serde.chatMessage offer.message) offer.signature) =
          (ahead.looksUp && offer.verifies sodium replica) := rfl
    rw [passes, insertions]
    cases ahead.looksUp && offer.verifies sodium replica with
    | false => exact inductionHypothesis replica ahead.afterLookUp merged
    | true =>
      obtain ⟨stored, inserted, counted⟩ := MessagesDao.insert_message_answered replica
        ahead.afterLookUp ⟨offer.message, sodium.toBytes offer.signature⟩
      obtain ⟨rows, final, ran, countedRest⟩ := inductionHypothesis (replica.store stored)
        ahead.afterLookUp.afterInsertion
        (merged || (if ahead.afterLookUp.Reports then SqliteResult.ok else .error) = .ok)
      rw [insertions_store] at ran countedRest
      refine ⟨stored ++ rows, final, ?_, ?_⟩
      · simp only [if_true]
        rw [bind_ok _ inserted, ran, replica.store_append, List.any_cons, ← Bool.or_assoc]
        by_cases reports : ahead.afterLookUp.Reports <;> simp [reports]
      · simp only [if_true]
        rw [List.exists_mem_cons_iff, ← counted, ← countedRest, ne_eq, List.append_eq_nil_iff,
          not_and_or]

/-- A merge reports MERGED when one insertion reports success, and adds rows when
one is stored. -/
theorem merge_answered (update : Update Signature) (replica : Replica) (ahead : Ahead) :
    ∃ status rows final,
      (merge sodium update).run (replica.meeting ahead) =
        .ok status ((replica.store rows).meeting final) ∧
      (status = .merged ↔
        ∃ insertion ∈ insertions sodium replica (offers update) ahead, insertion.Reports) ∧
      (rows ≠ [] ↔
        ∃ insertion ∈ insertions sodium replica (offers update) ahead, insertion.Stores) := by
  obtain ⟨rows, final, ran, counted⟩ :=
    merge_offers_answered sodium replica (offers update) ahead false
  have decides : (insertions sodium replica (offers update) ahead).any
      (fun insertion => insertion.Reports) = true ↔
        ∃ insertion ∈ insertions sodium replica (offers update) ahead, insertion.Reports := by
    simp
  rw [Bool.false_or] at ran
  generalize (insertions sodium replica (offers update) ahead).any
    (fun insertion => insertion.Reports) = reported at ran decides
  refine ⟨if reported then .merged else .skipped, rows, final, ?_, ?_, counted⟩
  · rw [merge, merge_entries_eq]
    exact bind_ok _ ran
  · rw [← decides]
    cases reported <;> simp

/-- The status of the merge is MERGED if and only if the merge added a row. -/
def Truthful (update : Update Signature) (replica : Replica) : Prop :=
  ∃ status after, (merge sodium update).run replica = .ok status after ∧
    (status = .merged ↔ replica.messages.columns.length < after.messages.columns.length)

/-- Whatever the database answers and the locals hold, the status tells the truth
exactly when an insertion reports success or none stores a row. -/
theorem merge_truthful_iff (update : Update Signature) (replica : Replica) (ahead : Ahead) :
    Truthful sodium update (replica.meeting ahead) ↔
      (∃ insertion ∈ insertions sodium replica (offers update) ahead, insertion.Reports) ∨
        ∀ insertion ∈ insertions sodium replica (offers update) ahead, ¬ insertion.Stores := by
  obtain ⟨status, rows, final, ran, reported, counted⟩ := merge_answered sodium update replica ahead
  have added : replica.messages.columns.length <
      (replica.store rows).messages.columns.length ↔ rows ≠ [] := by
    rw [Replica.store_columns, List.length_append, ← List.length_pos_iff]
    omega
  constructor
  · rintro ⟨returned, after, ranAgain, tells⟩
    rw [ran] at ranAgain
    cases ranAgain
    have same := reported.symm.trans (tells.trans (added.trans counted))
    by_cases reports : ∃ insertion ∈ insertions sodium replica (offers update) ahead,
        insertion.Reports
    · exact .inl reports
    · exact .inr fun insertion member stores => reports (same.mpr ⟨insertion, member, stores⟩)
  · intro honest
    refine ⟨status, _, ran, reported.trans (Iff.trans ?_ (added.trans counted).symm)⟩
    constructor
    · rintro ⟨insertion, member, reports⟩
      exact ⟨insertion, member, reports.stores⟩
    · rintro ⟨insertion, member, stores⟩
      rcases honest with reports | idle
      · exact reports
      · exact absurd stores (idle insertion member)

/-- The row is stored, but the local of its insertion happens to start as ERROR. -/
theorem stored_but_skipped :
    ¬ ∀ (update : Update Buffer) (replica : Replica) (ahead : Ahead),
      Truthful Sodium.transparent update (replica.meeting ahead) := by
  intro truthful
  let met := sampleReplica.meeting ⟨[], [.error]⟩
  have reliable : met.Reliable := rfl
  have stored : (accepted Sodium.transparent met sampleUpdate).length = 1 := by decide +kernel
  obtain ⟨status, after, ran, tells⟩ := truthful sampleUpdate sampleReplica ⟨[], [.error]⟩
  change (merge Sodium.transparent sampleUpdate).run met = _ at ran
  rw [merge_run reliable, stored] at ran
  cases ran
  refine absurd (tells.mpr ?_) (by decide)
  rw [Replica.store_columns, List.length_append, acceptedRows, List.length_map, stored]
  exact Nat.lt_succ_self _

end Log

end Replikon
