import Replikon.Refinement.Interruptions
import Replikon.Refinement.Requests

/-!
# What a query reports when one of its steps fails

The loops over result rows end at the first step that is not a row. Whether that
step reported the end or an error is not looked at, so a list that was cut short
by an error is returned like a whole one; and a failed look-up is an absent user.
-/

namespace Replikon

open Foundation

/-- How the steps of a query over so many rows end. There is one step for each
row and one that reports the end; the first that does not complete is the last. -/
def ending : Nat → List Outcome → Outcome
  | _, [] => .completes
  | 0, outcome :: _ => outcome
  | rows + 1, outcome :: rest => if outcome = .completes then ending rows rest else outcome

/-- The query returns a value only when its steps ended with the end of the rows,
and then the whole one; when a step fails it returns the error. -/
structure ReportsFailures {α : Type} (query : Program (Expected α)) (replica : Replica)
    (ended : Outcome) (whole : α) : Prop where
  complete : ∀ value after, query.run replica = .ok (.ok value) after →
    ended = .completes ∧ value = whole
  reported : ended = .fails → ∃ error after, query.run replica = .ok (.error error) after

/-- The steps of a query that do not complete, and those that do: all rows are
read up to the end, some before a failure, and none is returned after a stop. -/
inductive Fetched {α : Type} (rows : List α) (fetch : EStateM.Result Stop Replica (List α)) :
    Outcome → Prop where
  | all (after : Replica) (read : fetch = .ok rows after) : Fetched rows fetch .completes
  | some (read : List α) (after : Replica) (returned : fetch = .ok read after) :
      Fetched rows fetch .fails
  | none (after : Replica) (stopped : fetch = .error .killed after) : Fetched rows fetch .stops

/-- One more row in front. -/
theorem Fetched.cons {α : Type} {later : List α} {replica : Replica} {ended : Outcome} (first : α)
    (fetched : Fetched later ((fetchRows later).run replica) ended) :
    Fetched (first :: later)
      ((fetchRows later >>= fun rows => pure (first :: rows) : Program (List α)).run replica)
      ended := by
  cases fetched with
  | all after read => exact .all after (by rw [bind_ok _ read]; rfl)
  | some read after returned => exact .some (first :: read) after (by rw [bind_ok _ returned]; rfl)
  | none after stopped => exact .none after (bind_error _ stopped)

/-- How the loop over the rows goes, by induction on the rows. -/
theorem fetch_rows_fetched {α : Type} (replica : Replica) (rows : List α) (steps : List Outcome)
    (stack : List SqliteResult) :
    Fetched rows ((fetchRows rows).run (replica.facing steps stack)) (ending rows.length steps) := by
  induction rows generalizing steps with
  | nil =>
    cases steps with
    | nil => exact .all _ rfl
    | cons outcome rest =>
      cases outcome with
      | completes => exact .all _ rfl
      | fails => exact .some _ _ rfl
      | stops => exact .none _ rfl
  | cons first later inductionHypothesis =>
    cases steps with
    | nil =>
      have row : (call sqliteRow).run (replica.facing [] stack) =
          .ok .row (replica.facing [] stack) := rfl
      have whole : ending later.length [] = .completes := by cases later <;> rfl
      have fetched := (inductionHypothesis []).cons first
      rw [whole] at fetched
      rw [fetchRows, bind_ok _ row, if_pos rfl]
      exact fetched
    | cons outcome rest =>
      cases outcome with
      | completes =>
        have row : (call sqliteRow).run (replica.facing (.completes :: rest) stack) =
            .ok .row (replica.facing rest stack) := rfl
        rw [fetchRows, bind_ok _ row, if_pos rfl]
        exact (inductionHypothesis rest).cons first
      | fails => exact .some [] (replica.facing rest stack) rfl
      | stops => exact .none (replica.facing rest stack) rfl

/-- A query that returns what it made of the rows it read reports a failure only
if there is none. -/
theorem reports_failures_iff {α β : Type} {query : Program (Expected β)} {replica : Replica}
    {rows : List α} {fetch : Program (List α)} {ended : Outcome} {state : Replica}
    (make : List α → β)
    (same : query.run replica =
      (fetch >>= fun read => pure (.ok (make read)) : Program (Expected β)).run state)
    (fetched : Fetched rows (fetch.run state) ended) :
    ReportsFailures query replica ended (make rows) ↔ ended ≠ .fails := by
  cases fetched with
  | all after read =>
    rw [bind_ok _ read] at same
    refine iff_of_true ⟨?_, nofun⟩ nofun
    intro value final ran
    rw [same] at ran
    cases ran
    exact ⟨rfl, rfl⟩
  | some read after returned =>
    rw [bind_ok _ returned] at same
    refine iff_of_false ?_ fun other => other rfl
    intro reports
    obtain ⟨error, final, ran⟩ := reports.reported rfl
    rw [same] at ran
    cases ran
  | none after stopped =>
    rw [bind_error _ stopped] at same
    refine iff_of_true ⟨?_, nofun⟩ nofun
    intro value final ran
    rw [same] at ran
    cases ran

section Queries

variable (replica : Replica) (steps : List Outcome) (stack : List SqliteResult)

theorem MessagesDao.get_headers_failures_iff :
    ReportsFailures MessagesDao.getHeaders (replica.facing (completing 1 ++ steps) stack)
        (ending replica.messages.headerRows.length steps) (tableHeaders replica.messages) ↔
      ending replica.messages.headerRows.length steps ≠ .fails := by
  refine reports_failures_iff (fun rows => rows.foldl MessagesDao.pushHeader SortedMap.empty) ?_
    (fetch_rows_fetched replica replica.messages.headerRows steps stack)
  rfl

theorem SecurityDao.get_all_public_keys_failures_iff :
    ReportsFailures SecurityDao.getAllPublicKeys (replica.facing (completing 1 ++ steps) stack)
        (ending replica.security.rows.length steps)
        (replica.security.rows.map SecurityDao.publicKey) ↔
      ending replica.security.rows.length steps ≠ .fails :=
  reports_failures_iff (fun rows => rows.map SecurityDao.publicKey) rfl
    (fetch_rows_fetched replica replica.security.rows steps stack)

theorem SecurityDao.get_admins_user_info_failures_iff :
    ReportsFailures SecurityDao.getAdminsUserInfo (replica.facing (completing 1 ++ steps) stack)
        (ending (replica.security.rows.filter (·.isAdmin)).length steps)
        ((replica.security.rows.filter (·.isAdmin)).map SecurityDao.userInfo) ↔
      ending (replica.security.rows.filter (·.isAdmin)).length steps ≠ .fails :=
  reports_failures_iff (fun rows => rows.map SecurityDao.userInfo) rfl
    (fetch_rows_fetched replica (replica.security.rows.filter (·.isAdmin)) steps stack)

/-- The calls of the loop over the intervals: two bounds, a step and a reset each. -/
theorem MessagesDao.insert_intervals_completes (intervals : List Interval) :
    (MessagesDao.insertIntervals .ok intervals).run
        (replica.facing (completing (4 * intervals.length) ++ steps) stack) =
      let searched := replica.searchIntervals ++ intervals.map MessagesDao.bounds
      .ok .ok ({ replica with searchIntervals := searched }.facing steps stack) := by
  induction intervals generalizing replica with
  | nil => simp [MessagesDao.insertIntervals, EStateM.run, pure, EStateM.pure, completing]
  | cons interval rest inductionHypothesis =>
    let added : Replica :=
      { replica with searchIntervals := replica.searchIntervals ++ [MessagesDao.bounds interval] }
    have calls : completing (4 * (interval :: rest).length) ++ steps =
        completing 4 ++ (completing (4 * rest.length) ++ steps) := by
      rw [List.length_cons, Nat.mul_succ, Nat.add_comm, completing, List.replicate_add,
        List.append_assoc]
      rfl
    have inserted : (MessagesDao.insertIntervals .ok (interval :: rest)).run
        (replica.facing (completing 4 ++ (completing (4 * rest.length) ++ steps)) stack) =
          (MessagesDao.insertIntervals .ok rest).run
            (added.facing (completing (4 * rest.length) ++ steps) stack) := rfl
    rw [calls, inserted, inductionHypothesis]
    simp [added]

/-- The answer to a request is fetched after the search intervals are in place. -/
theorem MessagesDao.get_all_messages_failures_iff (author : Author) (intervals : List Interval) :
    ReportsFailures (MessagesDao.getAllMessages author intervals)
        (replica.facing (completing (5 + 4 * intervals.length) ++ steps) stack)
        (ending (Log.selected replica.messages author intervals).length steps)
        (Log.selected replica.messages author intervals) ↔
      ending (Log.selected replica.messages author intervals).length steps ≠ .fails := by
  let rows := replica.messages.byIntervals (some author) (intervals.map MessagesDao.bounds)
  let cleared : Replica := { replica with searchIntervals := [] }
  let filled : Replica := { replica with searchIntervals := intervals.map MessagesDao.bounds }
  have whole : Log.selected replica.messages author intervals = rows.map MessagesDao.fromRow := rfl
  have count : (Log.selected replica.messages author intervals).length = rows.length := by
    rw [whole, List.length_map]
  let rest := completing (4 * intervals.length) ++ (completing 2 ++ steps)
  have calls : completing (5 + 4 * intervals.length) ++ steps = completing 3 ++ rest := by
    have split : 5 + 4 * intervals.length = 3 + (4 * intervals.length + 2) := by omega
    rw [split, completing, List.replicate_add, List.replicate_add, List.append_assoc,
      List.append_assoc]
    rfl
  have deleted : (execute fun replica => some { replica with searchIntervals := [] }).run
      (replica.facing (completing 2 ++ rest) stack) =
        .ok .ok (cleared.facing (completing 1 ++ rest) stack) := rfl
  have inserted : (MessagesDao.insertIntervals .ok intervals).run
      (cleared.facing (completing 0 ++ rest) stack) =
        .ok .ok (filled.facing (completing 2 ++ steps) stack) :=
    MessagesDao.insert_intervals_completes cleared (completing 2 ++ steps) stack intervals
  rw [count, whole, calls]
  refine reports_failures_iff (fun rows => rows.map MessagesDao.fromRow) ?_
    (fetch_rows_fetched filled rows steps stack)
  rw [MessagesDao.getAllMessages, bind_ok _ (prepare_completes 2)]
  simp only [returnIfError]
  rw [bind_ok _ deleted]
  simp only [returnIfResultError, if_true]
  rw [bind_ok _ (prepare_completes 0)]
  simp only []
  rw [bind_ok _ inserted]
  simp only [if_true]
  rw [bind_ok _ (prepare_completes 1)]
  simp only []
  rw [bind_ok _ (bind_completes 0 author)]
  simp only []
  rw [bind_ok _ get_run]
  rfl

/-- The look-up takes one step, to its row or to the end. -/
theorem SecurityDao.get_user_info_failures_iff (author : Author) :
    ReportsFailures (SecurityDao.getUserInfo author) (replica.facing (completing 2 ++ steps) stack)
        (ending 0 steps) ((replica.security.find author).map SecurityDao.userInfo) ↔
      ending 0 steps ≠ .fails := by
  let fetch : Program (List SecurityRow) :=
    fetchRow (replica.security.find author).toList >>= fun step => pure step.2.toList
  have fetched : Fetched (replica.security.find author).toList
      (fetch.run (replica.facing steps stack)) (ending 0 steps) := by
    cases found : replica.security.find author <;>
      simp only [fetch, found] <;>
      cases steps with
      | nil => exact .all _ rfl
      | cons outcome rest =>
        cases outcome with
        | completes => exact .all _ rfl
        | fails => exact .some _ _ rfl
        | stops => exact .none _ rfl
  have whole : (replica.security.find author).map SecurityDao.userInfo =
      (replica.security.find author).toList.head?.map SecurityDao.userInfo := by
    rw [Option.head?_toList]
  rw [whole]
  refine reports_failures_iff (fun rows => rows.head?.map SecurityDao.userInfo) ?_ fetched
  rw [SecurityDao.getUserInfo, bind_ok _ (prepare_completes 1)]
  simp only [returnIfError]
  rw [bind_ok _ (bind_completes 0 author)]
  simp only [returnIfResultError, if_true, Option.bind_some]
  rw [bind_ok _ get_run, bind_assoc]
  congr 1
  refine bind_congr fun step => ?_
  obtain ⟨result, found⟩ := step
  cases found <;> rfl

/-- Each of the five queries reports a failure of its steps exactly when none of
them fails: a value is then returned after the end only, with every row. -/
theorem failed_queries_iff :
    (ReportsFailures MessagesDao.getHeaders (replica.facing (completing 1 ++ steps) stack)
        (ending replica.messages.headerRows.length steps) (tableHeaders replica.messages) ↔
      ending replica.messages.headerRows.length steps ≠ .fails) ∧
    (∀ author intervals,
      ReportsFailures (MessagesDao.getAllMessages author intervals)
          (replica.facing (completing (5 + 4 * intervals.length) ++ steps) stack)
          (ending (Log.selected replica.messages author intervals).length steps)
          (Log.selected replica.messages author intervals) ↔
        ending (Log.selected replica.messages author intervals).length steps ≠ .fails) ∧
    (ReportsFailures SecurityDao.getAllPublicKeys (replica.facing (completing 1 ++ steps) stack)
        (ending replica.security.rows.length steps)
        (replica.security.rows.map SecurityDao.publicKey) ↔
      ending replica.security.rows.length steps ≠ .fails) ∧
    (ReportsFailures SecurityDao.getAdminsUserInfo (replica.facing (completing 1 ++ steps) stack)
        (ending (replica.security.rows.filter (·.isAdmin)).length steps)
        ((replica.security.rows.filter (·.isAdmin)).map SecurityDao.userInfo) ↔
      ending (replica.security.rows.filter (·.isAdmin)).length steps ≠ .fails) ∧
    ∀ author,
      ReportsFailures (SecurityDao.getUserInfo author) (replica.facing (completing 2 ++ steps) stack)
          (ending 0 steps) ((replica.security.find author).map SecurityDao.userInfo) ↔
        ending 0 steps ≠ .fails :=
  ⟨MessagesDao.get_headers_failures_iff replica steps stack,
    MessagesDao.get_all_messages_failures_iff replica steps stack,
    SecurityDao.get_all_public_keys_failures_iff replica steps stack,
    SecurityDao.get_admins_user_info_failures_iff replica steps stack,
    SecurityDao.get_user_info_failures_iff replica steps stack⟩

end Queries

/-- The first step over the keys fails, and the list of keys is returned as an
empty one. -/
theorem failed_step_unreported :
    ¬ ∀ (replica : Replica) (steps : List Outcome) (stack : List SqliteResult),
      ReportsFailures SecurityDao.getAllPublicKeys (replica.facing (completing 1 ++ steps) stack)
        (ending replica.security.rows.length steps)
        (replica.security.rows.map SecurityDao.publicKey) := by
  intro reports
  have returned : SecurityDao.getAllPublicKeys.run
      (Log.sampleReplica.facing (completing 1 ++ [.fails]) []) =
        .ok (.ok []) (Log.sampleReplica.facing [] []) := rfl
  have whole := ((reports Log.sampleReplica [.fails] []).complete _ _ returned).2
  exact absurd whole (by decide)

end Replikon
