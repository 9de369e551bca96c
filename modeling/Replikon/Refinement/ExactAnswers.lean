import Replikon.Refinement.Requests

/-!
# Requests are answered exactly

`getAllMessages` joins the messages with a temporary table that all calls share.
It empties the table, fills it with the bounds of the given intervals and then
reads; what earlier calls left there, finished or not, has no influence. The
call is successful when it returns a value and no database call failed in it:
such a run is a run on a database that does not fail.
-/

namespace Replikon

open Foundation

/-- None of the database calls made from one state to the other failed. -/
def Undisturbed (before after : Replica) : Prop :=
  ∀ used, before.script = used ++ after.script → ∀ outcome ∈ used, outcome = .completes

/-- The replica with a database that does not fail. -/
def Replica.untroubled (replica : Replica) : Replica := { replica with script := [] }

/-- What the program does undisturbed it does on a database that does not fail. -/
def Steady {α : Type} (program : Program α) : Prop :=
  ∀ replica value after, program.run replica = .ok value after →
    ∃ used, replica.script = used ++ after.script ∧
      ((∀ outcome ∈ used, outcome = .completes) →
        program.run replica.untroubled = .ok value after.untroubled)

section Steadiness

variable {α β : Type}

theorem steady_pure (value : α) : Steady (pure value) := by
  intro replica other after ran
  cases ran
  exact ⟨[], rfl, fun _ => rfl⟩

/-- A sequence makes the calls of both parts. -/
theorem Steady.bind {program : Program α} {next : α → Program β} (first : Steady program)
    (second : ∀ value, Steady (next value)) : Steady (program >>= next) := by
  intro replica value final ran
  cases ended : program.run replica with
  | error reason after =>
    rw [bind_error next ended] at ran
    cases ran
  | ok middle after =>
    rw [bind_ok next ended] at ran
    obtain ⟨used, before, undisturbed⟩ := first _ _ _ ended
    obtain ⟨more, between, undisturbedNext⟩ := second middle _ _ _ ran
    refine ⟨used ++ more, by rw [List.append_assoc, ← between, before], ?_⟩
    intro completes
    have early := undisturbed fun outcome member => completes outcome (List.mem_append_left _ member)
    have late := undisturbedNext fun outcome member =>
      completes outcome (List.mem_append_right _ member)
    rw [bind_ok next early]
    exact late

/-- A single call. -/
theorem steady_call (code : Int) : Steady (call code) := by
  rintro ⟨ndebug, self, pubKey, privKey, messages, intervals, security, keyValue, script, stack⟩
    value after ran
  cases script with
  | nil =>
    cases ran
    exact ⟨[], rfl, fun _ => rfl⟩
  | cons outcome rest =>
    cases outcome with
    | completes =>
      cases ran
      exact ⟨[.completes], rfl, fun _ => rfl⟩
    | fails =>
      cases ran
      exact ⟨[.fails], rfl, fun completes => absurd (completes .fails (by simp)) (by decide)⟩
    | stops => cases ran

/-- Reading the tables is no call. -/
theorem steady_get {next : Replica → Program α}
    (blind : ∀ replica, next replica.untroubled = next replica)
    (steady : ∀ replica, Steady (next replica)) : Steady (get >>= next) := by
  intro replica value after ran
  obtain ⟨used, before, undisturbed⟩ := steady replica _ _ _ ran
  refine ⟨used, before, fun completes => ?_⟩
  have same := undisturbed completes
  rw [← blind replica] at same
  exact same

/-- So is a statement that looks at the tables only. -/
theorem steady_execute {statement : Replica → Option Replica}
    (blind : ∀ replica, statement replica.untroubled =
      (statement replica).map Replica.untroubled)
    (keeps : ∀ replica changed, statement replica = some changed →
      changed.script = replica.script) : Steady (execute statement) := by
  refine (steady_call sqliteDone).bind fun result => ?_
  by_cases ok : result = .ok
  · rw [if_pos ok]
    intro replica value after ran
    rw [bind_ok _ get_run] at ran
    cases changed : statement replica with
    | none =>
      rw [changed] at ran
      cases ran
      refine ⟨[], rfl, fun _ => ?_⟩
      rw [bind_ok _ get_run, blind replica, changed]
      rfl
    | some next =>
      rw [changed] at ran
      cases ran
      refine ⟨[], (keeps replica _ changed).symm, fun _ => ?_⟩
      rw [bind_ok _ get_run, blind replica, changed]
      rfl
  · rw [if_neg ok]
    exact steady_pure result

theorem steady_prepare_statement : Steady prepareStatement :=
  (steady_call sqliteOk).bind fun _ => steady_pure _

theorem steady_bind (value : α) : Steady (Replikon.bind value) :=
  (steady_call sqliteOk).bind fun _ => steady_pure _

/-- By induction on the rows. -/
theorem steady_fetch_rows (rows : List α) : Steady (fetchRows rows) := by
  induction rows with
  | nil => exact (steady_call sqliteDone).bind fun _ => steady_pure _
  | cons first rest inductionHypothesis =>
    refine (steady_call sqliteRow).bind fun result => ?_
    by_cases row : result = .row
    · rw [if_pos row]
      exact inductionHypothesis.bind fun _ => steady_pure _
    · rw [if_neg row]
      exact steady_pure _

/-- A value that is checked first. -/
theorem steady_return_if_error {result : Expected α} {rest : α → Program (Expected β)}
    (steady : ∀ value, Steady (rest value)) : Steady (returnIfError result rest) := by
  cases result with
  | error error => exact steady_pure _
  | ok value => exact steady value

theorem steady_return_if_result_error {result : SqliteResult} {rest : Program (Expected β)}
    (steady : Steady rest) : Steady (returnIfResultError result rest) := by
  by_cases ok : result = .ok
  · rw [returnIfResultError, if_pos ok]
    exact steady
  · rw [returnIfResultError, if_neg ok]
    exact steady_pure _

end Steadiness

namespace MessagesDao

/-- By induction on the intervals. -/
theorem steady_insert_intervals (result : SqliteResult) (intervals : List Interval) :
    Steady (insertIntervals result intervals) := by
  induction intervals generalizing result with
  | nil => exact steady_pure result
  | cons interval rest inductionHypothesis =>
    refine (steady_bind _).bind fun start => (steady_bind _).bind fun finish => ?_
    refine (steady_execute ?_ ?_).bind fun stepped => (steady_call _).bind fun reset => ?_
    · intro replica
      cases start.2 <;> cases finish.2 <;> rfl
    · intro replica changed inserted
      cases first : start.2 <;> cases last : finish.2 <;> rw [first, last] at inserted <;>
        cases inserted <;> rfl
    · dsimp only
      split
      · exact inductionHypothesis _
      · exact steady_pure _

theorem steady_get_all_messages (author : Author) (intervals : List Interval) :
    Steady (getAllMessages author intervals) := by
  refine steady_prepare_statement.bind fun cleared => steady_return_if_error fun _ => ?_
  refine (steady_execute (fun _ => rfl) ?_).bind fun result =>
    steady_return_if_result_error ?_
  · rintro replica _ ⟨⟩
    rfl
  refine steady_prepare_statement.bind fun inserting => steady_return_if_error fun _ => ?_
  refine (steady_insert_intervals _ _).bind fun inserted => steady_return_if_result_error ?_
  refine steady_prepare_statement.bind fun selecting => steady_return_if_error fun _ => ?_
  refine (steady_bind author).bind fun bound => steady_get (fun _ => rfl) fun replica => ?_
  exact (steady_fetch_rows _).bind fun _ => steady_pure _

/-- The lamport of the row lies in one of the intervals. -/
def LiesIn (intervals : List Interval) (row : MessageColumns) : Prop :=
  ∃ interval ∈ intervals, interval.start.toNat ≤ row.lamport.toUInt64.toNat ∧
    row.lamport.toUInt64.toNat < interval.start.toNat + interval.len.toNat

instance (intervals : List Interval) (row : MessageColumns) : Decidable (LiesIn intervals row) :=
  inferInstanceAs (Decidable (∃ interval ∈ intervals, _))

/-- No stored lamport below zero lies in an interval that ends by `2^63`. -/
theorem lies_in_iff (intervals : List Interval)
    (bounded : ∀ interval ∈ intervals, interval.start.toNat + interval.len.toNat ≤ 2 ^ 63)
    (row : MessageColumns) :
    LiesIn intervals row ↔
      0 ≤ row.lamport.toInt ∧ row.lamport.toInt.toNat ∈ covered intervals := by
  have unsigned := unsigned_value row.lamport
  have lower := row.lamport.le_toInt
  have inside : ∀ point, point ∈ covered intervals ↔ ∃ interval ∈ intervals,
      interval.start.toNat ≤ point ∧ point < interval.start.toNat + interval.len.toNat := by
    intro point
    simp [covered, Spans.cover, Spans.Within, Interval.span]
  rw [LiesIn, inside]
  by_cases nonnegative : 0 ≤ row.lamport.toInt
  · rw [if_pos nonnegative] at unsigned
    have same : row.lamport.toUInt64.toNat = row.lamport.toInt.toNat := by omega
    rw [same]
    exact ⟨fun lies => ⟨nonnegative, lies⟩, And.right⟩
  · rw [if_neg nonnegative] at unsigned
    constructor
    · rintro ⟨interval, member, _, below⟩
      have bound := bounded interval member
      omega
    · rintro ⟨positive, _⟩
      exact absurd positive nonnegative

/-- A successful call returns precisely the rows of the author whose lamports lie
in the intervals, each once, whatever the temporary table held before; and it
leaves the messages as they were. -/
theorem get_all_messages_exact (replica after : Replica) (author : Author)
    (intervals : List Interval) (wellFormed : WellFormed intervals)
    (bounded : ∀ interval ∈ intervals, interval.start.toNat + interval.len.toNat ≤ 2 ^ 63)
    (messages : List SignedChatMeesage)
    (returned : (getAllMessages author intervals).run replica = .ok (.ok messages) after)
    (undisturbed : Undisturbed replica after) :
    messages.Perm ((replica.messages.columns.filter fun row =>
        row.author = author ∧ LiesIn intervals row).map fromRow) ∧
      after.messages = replica.messages := by
  obtain ⟨used, before, reliably⟩ := steady_get_all_messages author intervals _ _ _ returned
  have ran := reliably (undisturbed used before)
  have reliable : replica.untroubled.Reliable := rfl
  rw [get_all_messages_run reliable] at ran
  injection ran with sameValue sameState
  have rows := by_intervals_exact replica.messages author intervals wellFormed bounded
    (fun row => decide (LiesIn intervals row)) fun row _ _ =>
      decide_eq_true_iff.trans (lies_in_iff intervals bounded row)
  simp only [decide_eq_true_eq] at rows
  constructor
  · rw [← Except.ok.inj sameValue]
    exact rows.map fromRow
  · exact (congrArg Replica.messages sameState).symm

/-- A message of author `a` without a signature. -/
def unsigned (lamport originTs : UInt64) : SignedChatMeesage :=
  ⟨⟨ascii "a", lamport, originTs, ascii "hi"⟩, []⟩

/-- A replica with messages of two authors whose temporary table still holds what
an earlier call left there. -/
def staleReplica : Replica :=
  { Log.sampleReplica.store (([unsigned 5 10, unsigned 1 50, unsigned 2 20, unsigned 4 30,
      unsigned 3 20].map toColumns) ++ [toColumns ⟨⟨ascii "c", 2, 1, []⟩, []⟩]) with
    searchIntervals := [(0, 100), (1, 1)] }

/-- The first interval is answered first, and in it by time and then by lamport. -/
theorem get_all_messages_exact_sample :
    [unsigned 2 20, unsigned 3 20, unsigned 1 50, unsigned 5 10].Perm
        ((staleReplica.messages.columns.filter fun row =>
          row.author = ascii "a" ∧ LiesIn [⟨1, 3⟩, ⟨5, 1⟩] row).map fromRow) ∧
      { staleReplica with searchIntervals := [(1, 3), (5, 5)] }.messages =
        staleReplica.messages := by
  refine get_all_messages_exact staleReplica
    { staleReplica with searchIntervals := [(1, 3), (5, 5)] } (ascii "a") [⟨1, 3⟩, ⟨5, 1⟩]
    (well_formed_pair _ _ (by decide) (by decide) (by decide) (by decide)) (by decide) _ ?_ ?_
  · rfl
  · intro used before
    have none : used = [] := (List.append_eq_nil_iff.mp before.symm).1
    simp [none]

end MessagesDao

end Replikon
