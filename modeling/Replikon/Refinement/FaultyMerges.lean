import Mathlib.Tactic.IntervalCases
import Replikon.Foundation.Guarantees
import Replikon.Refinement.MergeStatus

/-!
# What a merge stores when calls fail or the process dies

A merge ignores what its look-ups and insertions report. A look-up that fails
refuses the offer. An insertion makes seven calls; when the statement is not
prepared, the author or the lamport not bound, or the step not made, its row is
left out, and when another column is not bound, it is stored without that column.
Whatever happens, nothing is stored that was not accepted, nothing twice and
nothing out of order. Where calls do not fail but the process may be killed, what
is stored is the beginning of what the merge would have stored.
-/

namespace Replikon

open Foundation

/-- None of the next calls fails; the process may still be killed. -/
def Replica.Unfailing (replica : Replica) : Prop := ∀ outcome ∈ replica.script, outcome ≠ .fails

/-- The later replica is the earlier one after so many calls. -/
def Made (calls : Nat) (before after : Replica) : Prop :=
  after = before.facing (before.script.drop calls) after.stack

/-- The later replica is the earlier one after some calls. -/
def Spent (before after : Replica) : Prop := ∃ calls, Made calls before after

/-- At first no call has been made. -/
theorem made_none (replica : Replica) : Made 0 replica replica := rfl

/-- Calls that are made later are further calls. -/
theorem Made.trans {before middle after : Replica} {calls more : Nat}
    (early : Made calls before middle) (late : Made more middle after) :
    Made (calls + more) before after := by
  rw [Made, late, early]
  simp [Replica.facing, List.drop_drop]

/-- The outcome of the next call. -/
theorem Made.head {before after : Replica} {calls : Nat} (made : Made calls before after) :
    after.script.head? = before.script[calls]? := by
  rw [made]
  exact List.head?_drop

/-- Outcomes and locals are all that is used up. -/
theorem Spent.same {before after : Replica} (spent : Spent before after) :
    after = before.facing after.script after.stack := by
  obtain ⟨calls, made⟩ := spent
  rw [made]
  rfl

theorem Spent.unfailing {before after : Replica} (spent : Spent before after)
    (unfailing : before.Unfailing) : after.Unfailing := by
  obtain ⟨calls, made⟩ := spent
  rw [made]
  exact fun outcome member => unfailing outcome (List.mem_of_mem_drop member)

instance : Std.Refl Spent := ⟨fun replica => ⟨0, made_none replica⟩⟩

instance : IsTrans Replica Spent := ⟨by
  rintro first second third ⟨calls, early⟩ ⟨more, late⟩
  exact ⟨calls + more, early.trans late⟩⟩

/-- The replica with further rows. -/
def Replica.holding (replica : Replica) (rows : List MessageColumns) : Replica :=
  { replica with messages := replica.messages.insertAll rows }

/-- Calls that were made before rows were stored are made after it. -/
theorem Made.stored {replica reached : Replica} {calls : Nat} (made : Made calls replica reached)
    (rows : List MessageColumns) : Made calls (replica.holding rows) (reached.holding rows) := by
  rw [Made, made]
  rfl

theorem Spent.stored {replica reached : Replica} (spent : Spent replica reached)
    (rows : List MessageColumns) : Spent (replica.holding rows) (reached.holding rows) := by
  obtain ⟨calls, made⟩ := spent
  exact ⟨calls, made.stored rows⟩

/-- Rows that are stored on the way are stored in the end. -/
theorem Spent.holding {before middle after : Replica} {rows more : List MessageColumns}
    (early : Spent (before.holding rows) middle) (late : Spent (middle.holding more) after) :
    Spent (before.holding (rows ++ more)) after := by
  have whole : (before.holding rows).holding more = before.holding (rows ++ more) := by
    simp [Replica.holding, MessagesTable.insertAll, List.foldl_append]
  rw [← whole]
  exact trans_of Spent (early.stored more) late

section Calls

variable {start replica : Replica} {calls : Nat} (made : Made calls start replica) {α : Type}
include made

/-- The next call takes the next outcome and reports it. -/
theorem call_made (code : Int) :
    Guarantees (call code) replica
      (fun result after => Made (calls + 1) start after ∧ start.script[calls]? ≠ some .stops ∧
        result = if start.script[calls]? = some .fails then .error else toEnum code)
      (fun after => Spent start after ∧ start.script[calls]? = some .stops) := by
  rw [← made.head]
  have next : Guarantees (call code) replica
      (fun result after => Made 1 replica after ∧ replica.script.head? ≠ some .stops ∧
        result = if replica.script.head? = some .fails then .error else toEnum code)
      (fun after => Made 1 replica after ∧ replica.script.head? = some .stops) := by
    obtain ⟨ndebug, self, pubKey, privKey, messages, intervals, security, keyValue, script, stack⟩ :=
      replica
    cases script with
    | nil => exact ⟨rfl, nofun, rfl⟩
    | cons outcome rest =>
      cases outcome with
      | completes => exact ⟨rfl, nofun, rfl⟩
      | fails => exact ⟨rfl, nofun, rfl⟩
      | stops => exact ⟨rfl, rfl⟩
  refine next.mono ?_ ?_
  · rintro result after ⟨one, reported⟩
    exact ⟨made.trans one, reported⟩
  · rintro after ⟨one, stopped⟩
    exact ⟨⟨_, made.trans one⟩, stopped⟩

theorem prepare_made :
    Guarantees prepareStatement replica
      (fun prepared after => Made (calls + 1) start after ∧ start.script[calls]? ≠ some .stops ∧
        prepared = if start.script[calls]? = some .fails then .error .sqliteError else .ok ())
      (fun after => Spent start after ∧ start.script[calls]? = some .stops) := by
  apply (call_made made sqliteOk).bind
  rintro result after ⟨one, going, rfl⟩
  refine guarantees_pure _ ⟨one, going, ?_⟩
  split <;> rfl

/-- A value is not bound exactly if its call fails. -/
theorem bind_made (value : α) :
    Guarantees (Replikon.bind value) replica
      (fun bound after => Made (calls + 1) start after ∧ start.script[calls]? ≠ some .stops ∧
        bound.2 = if start.script[calls]? = some .fails then none else some value)
      (fun after => Spent start after ∧ start.script[calls]? = some .stops) := by
  apply (call_made made sqliteOk).bind
  rintro result after ⟨one, going, rfl⟩
  refine guarantees_pure _ ⟨one, going, ?_⟩
  split <;> rfl

/-- A row is not read exactly if its step fails. -/
theorem fetch_row_made (row : α) :
    Guarantees (fetchRow [row]) replica
      (fun fetched after => Made (calls + 1) start after ∧ start.script[calls]? ≠ some .stops ∧
        fetched.2 = if start.script[calls]? = some .fails then none else some row)
      (fun after => Spent start after ∧ start.script[calls]? = some .stops) := by
  apply (call_made made sqliteRow).bind
  rintro result after ⟨one, going, rfl⟩
  refine guarantees_pure _ ⟨one, going, ?_⟩
  split <;> rfl

/-- A statement takes effect exactly if its step does not fail. -/
theorem execute_made (statement : Replica → Replica) :
    Guarantees (execute fun reached => some (statement reached)) replica
      (fun _ after => start.script[calls]? ≠ some .stops ∧ ∃ reached, Made (calls + 1) start reached ∧
        after = if start.script[calls]? = some .fails then reached else statement reached)
      (fun after => Spent start after ∧ start.script[calls]? = some .stops) := by
  apply (call_made made sqliteDone).bind
  rintro result reached ⟨one, going, rfl⟩
  by_cases failed : start.script[calls]? = some .fails
  · rw [if_pos failed, if_neg SqliteResult.noConfusion]
    exact guarantees_pure _ ⟨going, reached, one, (if_pos failed).symm⟩
  · rw [if_neg failed, if_pos (by decide)]
    exact guarantees_get_bind ⟨going, reached, one, (if_neg failed).symm⟩

end Calls

section Calls

variable (replica : Replica) {α : Type}

/-- A first call does not fail while none does. -/
theorem Replica.Unfailing.head {replica : Replica} (unfailing : replica.Unfailing) (index : Nat) :
    replica.script[index]? ≠ some .fails :=
  fun failed => unfailing _ (List.mem_of_getElem? failed) rfl

/-- A call completes, or it fails or is killed as the script has it. -/
theorem call_spent (code : Int) :
    Guarantees (call code) replica
      (fun result after => Spent replica after ∧ (replica.Unfailing → result = toEnum code))
      (Spent replica) := by
  refine (call_made (made_none replica) code).mono ?_ fun _ stopped => stopped.1
  rintro result after ⟨made, _, rfl⟩
  exact ⟨⟨1, made⟩, fun unfailing => if_neg (unfailing.head 0)⟩

theorem prepare_spent :
    Guarantees prepareStatement replica
      (fun prepared after => Spent replica after ∧ (replica.Unfailing → prepared = .ok ()))
      (Spent replica) := by
  refine (call_spent replica sqliteOk).bind fun result after ⟨spent, complete⟩ => ?_
  exact guarantees_pure _ ⟨spent, fun unfailing => by rw [complete unfailing]; rfl⟩

/-- A value is bound, or nothing is. -/
theorem bind_spent (value : α) :
    Guarantees (Replikon.bind value) replica
      (fun bound after => Spent replica after ∧ (bound.2 = some value ∨ bound.2 = none) ∧
        (replica.Unfailing → bound = (.ok, some value)))
      (Spent replica) := by
  refine (call_spent replica sqliteOk).bind fun result after ⟨spent, complete⟩ => ?_
  refine guarantees_pure _ ⟨spent, ?_, fun unfailing => by rw [complete unfailing]; rfl⟩
  dsimp only
  split
  · exact .inl rfl
  · exact .inr rfl

/-- The first row is read, or none is. -/
theorem fetch_row_spent (rows : List α) :
    Guarantees (fetchRow rows) replica
      (fun fetched after => Spent replica after ∧
        (fetched.2 = rows.head? ∨ fetched.2 = none) ∧
        (replica.Unfailing → fetched.2 = rows.head?))
      (Spent replica) := by
  cases rows with
  | nil =>
    refine (call_spent replica sqliteDone).bind fun result after ⟨spent, _⟩ => ?_
    exact guarantees_pure _ ⟨spent, .inl rfl, fun _ => rfl⟩
  | cons first rest =>
    refine (call_spent replica sqliteRow).bind fun result after ⟨spent, complete⟩ => ?_
    refine guarantees_pure _ ⟨spent, ?_, fun unfailing => by rw [complete unfailing]; rfl⟩
    dsimp only
    split
    · exact .inl rfl
    · exact .inr rfl

end Calls

section Checks

variable (replica : Replica)

theorem Spent.security {before after : Replica} (spent : Spent before after) :
    after.security = before.security := by
  rw [spent.same]
  rfl

/-- What a later part uses up, the whole uses up. -/
theorem Spent.onward {before middle : Replica} {α : Type} {program : Program α}
    {post : α → Replica → Prop} (spent : Spent before middle)
    (guarantees : Guarantees program middle post (Spent middle)) :
    Guarantees program middle post (Spent before) :=
  guarantees.mono (fun _ _ => id) fun _ => trans_of Spent spent

/-- A user that is found is the one with the author's row. -/
theorem SecurityDao.get_user_info_spent (author : Author) :
    Guarantees (SecurityDao.getUserInfo author) replica
      (fun found after => Spent replica after ∧
        (∀ info, found = .ok (some info) →
          (replica.security.find author).map SecurityDao.userInfo = some info) ∧
        (replica.Unfailing → found = .ok ((replica.security.find author).map SecurityDao.userInfo)))
      (Spent replica) := by
  refine (prepare_spent replica).bind fun prepared first ⟨spent, complete⟩ => ?_
  cases prepared with
  | error error =>
    refine guarantees_pure _ ⟨spent, fun _ found => ?_, fun unfailing => ?_⟩
    · cases found
    · cases complete unfailing
  | ok value =>
    refine (spent.onward (bind_spent first author)).bind
      fun (result, bound) second ⟨spentBound, either, completeBound⟩ => ?_
    have reached := trans_of Spent spent spentBound
    unfold returnIfResultError
    dsimp only at either completeBound ⊢
    by_cases ok : result = .ok
    · rw [if_pos ok]
      refine guarantees_get_bind ?_
      refine (reached.onward (fetch_row_spent second _)).bind
        fun (_, fetched) third ⟨spentRow, row, completeRow⟩ => ?_
      have rows : ((bound.bind second.security.find).toList).head? =
          bound.bind second.security.find := by
        cases bound.bind second.security.find <;> rfl
      rw [rows, reached.security] at row completeRow
      have all : Spent replica third := trans_of Spent reached spentRow
      cases fetched with
      | none =>
        refine guarantees_pure _ ⟨all, fun _ found => ?_, fun unfailing => ?_⟩
        · cases found
        · have stepped := completeRow (reached.unfailing unfailing)
          rw [(Prod.mk.inj (completeBound (spent.unfailing unfailing))).2] at stepped
          simp only [Option.bind_some] at stepped
          rw [← stepped]
          rfl
      | some found =>
        have located : replica.security.find author = some found := by
          rcases row with same | none
          · rcases either with given | missing
            · rw [given] at same
              exact same.symm
            · rw [missing] at same
              cases same
          · cases none
        refine guarantees_pure _ ⟨all, fun info same => ?_, fun _ => ?_⟩
        · rw [located]
          exact Except.ok.inj same
        · rw [located]
          rfl
    · rw [if_neg ok]
      refine guarantees_pure _ ⟨reached, fun _ found => ?_, fun unfailing => ?_⟩
      · cases found
      · exact absurd (Prod.mk.inj (completeBound (spent.unfailing unfailing))).1 ok

/-- A check that passes has verified the signature. -/
theorem SecurityProvider.is_valid_spent {Signature T : Type} (sodium : Sodium Signature)
    (serialize : T → Buffer) (signature : Signature) (author : Text) (value : T) :
    Guarantees (SecurityProvider.isValid sodium serialize signature author value) replica
      (fun valid after => Spent replica after ∧
        (valid = true → replica.verifies sodium author (serialize value) signature = true) ∧
        (replica.Unfailing →
          valid = replica.verifies sodium author (serialize value) signature))
      (Spent replica) := by
  refine (SecurityDao.get_user_info_spent replica author).bind
    fun found after ⟨spent, located, complete⟩ => ?_
  have verdict : replica.verifies sodium author (serialize value) signature =
      ((replica.security.find author).map SecurityDao.userInfo).elim false
        fun info => sodium.verifyDetached signature (serialize value) info.pubKey := by
    unfold Replica.verifies
    cases replica.security.find author <;> rfl
  rw [verdict]
  cases found with
  | error error =>
    refine guarantees_pure _ ⟨spent, fun impossible => ?_, fun unfailing => ?_⟩
    · cases impossible
    · cases complete unfailing
  | ok known =>
    cases known with
    | none =>
      refine guarantees_pure _ ⟨spent, fun impossible => ?_, fun unfailing => ?_⟩
      · cases impossible
      · rw [← Except.ok.inj (complete unfailing)]
        rfl
    | some info =>
      rw [located info rfl]
      exact guarantees_pure _ ⟨spent, id, fun _ => rfl⟩

end Checks

section Insertions

variable (replica : Replica)

/-- Without rows nothing is stored. -/
theorem Spent.nothing {reached : Replica} (spent : Spent replica reached) :
    Spent (replica.holding []) reached := spent

namespace MessagesDao

/-- An insertion stores a row when the process lives through its seven calls and its
statement is prepared, its author and lamport are bound and its step is made. -/
def Stores (script : List Outcome) : Prop :=
  (∀ index < 7, script[index]? ≠ some .stops) ∧
    ∀ index ∈ [0, 1, 4, 6], script[index]? ≠ some .fails

instance (script : List Outcome) : Decidable (Stores script) :=
  inferInstanceAs (Decidable (_ ∧ _))

/-- The row with the columns that are bound by the third, fourth and sixth call. The
others are NULL, which reads as nothing. -/
def boundColumns (script : List Outcome) (whole : MessageColumns) : MessageColumns :=
  { whole with
    body := if script[2]? = some .fails then [] else whole.body
    originTs := if script[3]? = some .fails then 0 else whole.originTs
    signature := if script[5]? = some .fails then [] else whole.signature }

/-- What an insertion stores of a row when its calls end as the script has it. -/
def insertedRow (script : List Outcome) (whole : MessageColumns) : Option MessageColumns :=
  if Stores script then some (boundColumns script whole) else none

/-- A row that is stored has its author and its number. -/
theorem inserted_row_identity {script : List Outcome} {whole row : MessageColumns}
    (stored : insertedRow script whole = some row) :
    row.author = whole.author ∧ row.lamport = whole.lamport := by
  unfold insertedRow at stored
  split at stored
  · cases stored
    exact ⟨rfl, rfl⟩
  · cases stored

/-- Nothing is stored by an insertion in which the process is killed. -/
theorem inserted_row_stopped {script : List Outcome} (whole : MessageColumns) {index : Nat}
    (within : index < 7) (stopped : script[index]? = some .stops) :
    insertedRow script whole = none :=
  if_neg fun stores => stores.1 index within stopped

/-- Nothing is stored by one in which a needed call fails. -/
theorem inserted_row_failed {script : List Outcome} (whole : MessageColumns) {index : Nat}
    (needed : index ∈ [0, 1, 4, 6]) (failed : script[index]? = some Outcome.fails) :
    insertedRow script whole = none :=
  if_neg fun stores => stores.2 index needed failed

/-- Where no call fails, the row is stored as it is. -/
theorem inserted_row_whole {script : List Outcome} (whole : MessageColumns)
    (stores : Stores script) (unfailing : ∀ outcome ∈ script, outcome ≠ .fails) :
    insertedRow script whole = some whole := by
  have head : ∀ index : Nat, script[index]? ≠ some Outcome.fails :=
    fun index failed => unfailing _ (List.mem_of_getElem? failed) rfl
  rw [insertedRow, if_pos stores, boundColumns, if_neg (head 2), if_neg (head 3), if_neg (head 5)]

/-- A value that may not have been bound, as it is read. -/
theorem bound_value {α : Type} (failed : Prop) [Decidable failed] (value missing : α) :
    (if failed then none else some value).getD missing = if failed then missing else value := by
  split <;> rfl

/-- The values that are bound decide what the statement inserts. -/
theorem insert_row_bound (script : List Outcome) (signedMsg : SignedChatMeesage)
    (author body : Option Text) (originTs lamport : Option Int64) (sign : Option Buffer)
    (boundAuthor : author = if script[1]? = some .fails then none else some signedMsg.msg.author)
    (boundBody : body = if script[2]? = some .fails then none else some signedMsg.msg.body)
    (boundOriginTs : originTs =
      if script[3]? = some .fails then none else some signedMsg.msg.originTs.toInt64)
    (boundLamport : lamport =
      if script[4]? = some .fails then none else some signedMsg.msg.lamport.toInt64)
    (boundSign : sign = if script[5]? = some .fails then none else some signedMsg.sign) :
    insertRow author body originTs lamport sign replica =
      if script[1]? = some .fails ∨ script[4]? = some .fails then replica
      else replica.holding [boundColumns script (toColumns signedMsg)] := by
  by_cases unbound : script[1]? = some .fails ∨ script[4]? = some .fails
  · rw [if_pos unbound]
    rcases unbound with failed | failed
    · rw [boundAuthor, if_pos failed]
      rfl
    · rw [boundLamport, if_pos failed]
      cases author <;> rfl
  · obtain ⟨authorBound, lamportBound⟩ := not_or.mp unbound
    rw [if_neg unbound, boundAuthor, if_neg authorBound, boundLamport, if_neg lamportBound]
    simp only [insertRow, boundBody, boundOriginTs, boundSign, bound_value]
    rfl

/-- An insertion stores what its calls let it store, and the process lives through
all seven of them unless nothing is stored. If the process is killed, nothing is. -/
theorem insert_message_made (signedMsg : SignedChatMeesage) :
    Guarantees (insertMessage signedMsg) replica
      (fun _ after =>
        (∃ calls, Made calls (replica.holding
            (insertedRow replica.script (toColumns signedMsg)).toList) after ∧
          (calls = 7 ∨ insertedRow replica.script (toColumns signedMsg) = none)) ∧
        (replica.Unfailing → Stores replica.script))
      (fun after => Spent replica after ∧
        insertedRow replica.script (toColumns signedMsg) = none) := by
  let whole := toColumns signedMsg
  have killed : ∀ index < 7, ∀ after,
      Spent replica after ∧ replica.script[index]? = some .stops →
        Spent replica after ∧ insertedRow replica.script whole = none :=
    fun index within after stopped => ⟨stopped.1, inserted_row_stopped whole within stopped.2⟩
  refine ((prepare_made (made_none replica)).mono (fun _ _ => id) (killed 0 (by decide))).bind ?_
  rintro prepared first ⟨made, going, rfl⟩
  by_cases unprepared : replica.script[0]? = some .fails
  · have nothing := inserted_row_failed whole (by decide) unprepared
    rw [if_pos unprepared]
    refine guarantees_pure _ ⟨⟨1, ?_, .inr nothing⟩, fun unfailing => ?_⟩
    · rw [nothing]
      exact made
    · exact absurd unprepared (unfailing.head 0)
  rw [if_neg unprepared]
  have popped : Guarantees uninitialised first (fun _ after => Made 1 replica after)
      fun after => Spent replica after ∧ insertedRow replica.script whole = none := by
    rw [Guarantees, uninitialised_run]
    have reached : first = replica.facing (replica.script.drop 1) first.stack := made
    rw [reached]
    rfl
  refine popped.bind fun result second made => ?_
  refine ((bind_made made _).mono (fun _ _ => id) (killed 1 (by decide))).bind ?_
  rintro ⟨authorResult, author⟩ third ⟨made, going1, boundAuthor⟩
  refine ((bind_made made _).mono (fun _ _ => id) (killed 2 (by decide))).bind ?_
  rintro ⟨bodyResult, body⟩ fourth ⟨made, going2, boundBody⟩
  refine ((bind_made made _).mono (fun _ _ => id) (killed 3 (by decide))).bind ?_
  rintro ⟨originResult, originTs⟩ fifth ⟨made, going3, boundOrigin⟩
  refine ((bind_made made _).mono (fun _ _ => id) (killed 4 (by decide))).bind ?_
  rintro ⟨lamportResult, lamport⟩ sixth ⟨made, going4, boundLamport⟩
  refine ((bind_made made _).mono (fun _ _ => id) (killed 5 (by decide))).bind ?_
  rintro ⟨signResult, sign⟩ seventh ⟨made, going5, boundSign⟩
  refine ((execute_made made _).mono (fun _ _ => id) (killed 6 (by decide))).bind ?_
  rintro stepped after ⟨going6, reached, made, effect⟩
  refine guarantees_pure _ ⟨⟨7, ?_, .inl rfl⟩, fun unfailing => ?_⟩
  · rw [insert_row_bound reached replica.script signedMsg author body originTs lamport sign
      boundAuthor boundBody boundOrigin boundLamport boundSign] at effect
    by_cases stepFails : replica.script[6]? = some .fails
    · rw [if_pos stepFails] at effect
      rw [effect, inserted_row_failed whole (by decide) stepFails]
      exact made
    · rw [if_neg stepFails] at effect
      by_cases unbound : replica.script[1]? = some .fails ∨ replica.script[4]? = some .fails
      · have nothing : insertedRow replica.script whole = none :=
          unbound.elim (inserted_row_failed whole (by decide))
            (inserted_row_failed whole (by decide))
        rw [if_pos unbound] at effect
        rw [effect, nothing]
        exact made
      · have stores : Stores replica.script := by
          obtain ⟨author, lamport⟩ := not_or.mp unbound
          refine ⟨?_, by simp [unprepared, author, lamport, stepFails]⟩
          intro index within
          interval_cases index <;> assumption
        rw [if_neg unbound] at effect
        rw [effect, insertedRow, if_pos stores]
        exact made.stored _
  · refine ⟨?_, fun index _ => unfailing.head index⟩
    intro index within
    interval_cases index <;> assumption

end MessagesDao

end Insertions

namespace Log

variable {Signature : Type} (sodium : Sodium Signature)

/-- Rows that are stored of offers, one after another, while the calls end as the
script has it: calls may be made that store nothing, an offer may be left out, and
a row that is stored takes the seven next calls and has the columns that they let
it have. -/
inductive Fragments : List Outcome → List (Offer Signature) → List MessageColumns → Prop where
  | nothing (script : List Outcome) (offers : List (Offer Signature)) : Fragments script offers []
  | calls {script : List Outcome} {offers : List (Offer Signature)} {rows : List MessageColumns}
      (made : Nat) (later : Fragments (script.drop made) offers rows) :
      Fragments script offers rows
  | omits {script : List Outcome} {offers : List (Offer Signature)} {rows : List MessageColumns}
      (offer : Offer Signature) (later : Fragments script offers rows) :
      Fragments script (offer :: offers) rows
  | stores {script : List Outcome} {offers : List (Offer Signature)} {rows : List MessageColumns}
      {row : MessageColumns} (offer : Offer Signature)
      (stored : MessagesDao.insertedRow script (offer.row sodium) = some row)
      (later : Fragments (script.drop 7) offers rows) :
      Fragments script (offer :: offers) (row :: rows)

/-- The replica has stored fragments of the offers; without failures, as much of
their rows as the comparison says. -/
def Took (replica : Replica) (offers : List (Offer Signature))
    (compares : List MessageColumns → List MessageColumns → Prop) (after : Replica) : Prop :=
  ∃ rows, Spent (replica.holding rows) after ∧ Fragments sodium replica.script offers rows ∧
    (replica.Unfailing → compares rows (offers.map (Offer.row sodium)))

section Taking

variable {replica checked stored after : Replica} {offer : Offer Signature}
  {offers : List (Offer Signature)} {compares : List MessageColumns → List MessageColumns → Prop}
  (spent : Spent replica checked)
include spent

/-- What is taken in after a check is taken in before it. -/
theorem Took.before (took : Took sodium checked offers compares after) :
    Took sodium replica offers compares after := by
  obtain ⟨rows, reached, fragments, complete⟩ := took
  have later := trans_of Spent (spent.stored rows) reached
  have unfailing := spent.unfailing
  obtain ⟨calls, made⟩ := spent
  rw [made] at fragments
  exact ⟨rows, later, .calls calls fragments, fun before => complete (unfailing before)⟩

/-- An offer that is refused although it verifies is left out. -/
theorem Took.refused (took : Took sodium checked offers compares after)
    (failed : ¬ replica.Unfailing) : Took sodium replica (offer :: offers) compares after := by
  obtain ⟨rows, reached, fragments, _⟩ := took.before sodium spent
  exact ⟨rows, reached, .omits offer fragments, fun unfailing => absurd unfailing failed⟩

omit spent in
/-- An offer that is inserted is taken in before the later ones. -/
theorem Took.inserted {calls : Nat}
    (made : Made calls (checked.holding
      (MessagesDao.insertedRow checked.script (offer.row sodium)).toList) stored)
    (seven : calls = 7 ∨ MessagesDao.insertedRow checked.script (offer.row sodium) = none)
    (stores : checked.Unfailing → MessagesDao.Stores checked.script)
    (grows : ∀ row some all, compares some all → compares (row :: some) (row :: all))
    (took : Took sodium stored offers compares after) :
    Took sodium checked (offer :: offers) compares after := by
  obtain ⟨more, last, fragments, complete⟩ := took
  have script : stored.script = checked.script.drop calls := by
    rw [made]
    rfl
  rw [script] at fragments
  refine ⟨_, Spent.holding ⟨calls, made⟩ (last : Spent (stored.holding more) after), ?_,
    fun unfailing => ?_⟩
  · cases inserted : MessagesDao.insertedRow checked.script (offer.row sodium) with
    | none => exact .omits offer (.calls calls fragments)
    | some row =>
      rw [seven.resolve_right (by rw [inserted]; exact Option.some_ne_none row)] at fragments
      exact .stores offer inserted fragments
  · have whole := MessagesDao.inserted_row_whole (offer.row sodium) (stores unfailing) unfailing
    have passed : stored.Unfailing := Spent.unfailing ⟨calls, made⟩ unfailing
    rw [whole]
    exact grows _ _ _ (complete passed)

end Taking

/-- At first nothing has been taken in. -/
theorem Took.nothing {replica after : Replica} (offers : List (Offer Signature))
    (spent : Spent replica after) : Took sodium replica offers (· <+: ·) after :=
  ⟨[], spent, .nothing _ offers, fun _ => List.nil_prefix⟩

/-- Which offers verify is not changed by what a merge does. -/
theorem verifies_spent {replica after : Replica} {rows : List MessageColumns}
    (spent : Spent (replica.holding rows) after) :
    Offer.verifies sodium after = Offer.verifies sodium replica := by
  funext offer
  rw [Offer.verifies, Replica.verifies_congr sodium spent.security, Offer.verifies]
  rfl

/-- The merge takes in fragments of the offers that verify; when the process is
killed, of the first ones. By induction on the offers. -/
theorem merge_offers_spent (replica : Replica) (offers : List (Offer Signature)) (merged : Bool) :
    Guarantees (mergeOffers sodium offers merged) replica
      (fun _ => Took sodium replica (offers.filter (Offer.verifies sodium replica)) (· = ·))
      (Took sodium replica (offers.filter (Offer.verifies sodium replica)) (· <+: ·)) := by
  induction offers generalizing replica merged with
  | nil => exact guarantees_pure _ ⟨[], refl_of Spent replica, .nothing _ _, fun _ => rfl⟩
  | cons offer rest inductionHypothesis =>
    refine ((SecurityProvider.is_valid_spent replica sodium Serde.chatMessage offer.signature
      offer.key offer.message).mono (fun _ _ => id) fun _ => Took.nothing sodium _).bind
        fun valid checked ⟨spent, sound, complete⟩ => ?_
    cases valid with
    | false =>
      have later := inductionHypothesis checked merged
      rw [verifies_spent sodium spent.nothing] at later
      rw [if_neg Bool.false_ne_true]
      by_cases verifies : offer.verifies sodium replica = true
      · -- The look-up failed.
        have failed : ¬ replica.Unfailing :=
          fun unfailing => Bool.false_ne_true ((complete unfailing).trans verifies)
        rw [List.filter_cons_of_pos verifies]
        exact later.mono (fun _ _ took => took.refused sodium spent failed)
          fun _ took => took.refused sodium spent failed
      · rw [List.filter_cons_of_neg verifies]
        exact later.mono (fun _ _ took => took.before sodium spent)
          fun _ took => took.before sodium spent
    | true =>
      have verifies : offer.verifies sodium replica = true := sound rfl
      rw [if_pos rfl, List.filter_cons_of_pos verifies]
      refine ((MessagesDao.insert_message_made checked _).mono (fun _ _ => id)
        fun _ stopped => Took.nothing sodium _ (trans_of Spent spent stopped.1)).bind ?_
      rintro result stored ⟨⟨calls, made, seven⟩, stores⟩
      have later := inductionHypothesis stored (merged || result = .ok)
      rw [verifies_spent sodium ⟨calls, made⟩, verifies_spent sodium spent.nothing] at later
      refine later.mono (fun _ _ took => (took.inserted sodium made seven stores ?_).before sodium
        spent) fun _ took => (took.inserted sodium made seven stores ?_).before sodium spent
      · exact fun row _ _ same => congrArg (row :: ·) same
      · exact fun row _ _ starts => List.cons_prefix_cons.mpr ⟨rfl, starts⟩

/-- The same of a whole merge. -/
theorem merge_spent (replica : Replica) (update : Update Signature) :
    Guarantees (merge sodium update) replica
      (fun _ => Took sodium replica (accepted sodium replica update) (· = ·))
      (Took sodium replica (accepted sodium replica update) (· <+: ·)) := by
  rw [merge, merge_entries_eq]
  exact (merge_offers_spent sodium replica (offers update) false).bind
    fun _ _ took => guarantees_pure _ took

end Log

end Replikon
