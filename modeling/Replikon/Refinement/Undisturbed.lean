import Replikon.Refinement.Clients
import Replikon.Refinement.Construction
import Replikon.Refinement.FaultyMerges

/-!
# Reading while no call fails

A process may be killed at any call. As long as none of its calls fails, whatever
it reads before that is what it would read on a database that is not disturbed,
and an instance that it has opened is the one that it would have opened.
-/

namespace Replikon

open Foundation

/-- The replica when nothing happens to its next calls. -/
def Replica.calm (replica : Replica) : Replica := { replica with script := [] }

theorem Replica.calm_reliable (replica : Replica) : replica.calm.Reliable := rfl

/-- The second replica is the first one with nothing to disturb its calls; those of
the first do not fail. -/
def Calms (left right : Replica) : Prop := left.Unfailing ∧ right = left.calm

section Calls

variable {α β : Type}

/-- A call that returns has completed. -/
theorem reproduces_call (code : Int) : Reproduces Calms (call code) := by
  rintro ⟨ndebug, self, pubKey, privKey, messages, intervals, security, keyValue, script, stack⟩ right
    ⟨unfailing, rfl⟩ value after returned
  cases script with
  | nil =>
    cases returned
    exact ⟨_, rfl, unfailing, rfl⟩
  | cons outcome rest =>
    have later : ∀ each ∈ rest, each ≠ Outcome.fails :=
      fun each listed => unfailing each (List.mem_cons_of_mem _ listed)
    cases outcome with
    | completes =>
      cases returned
      exact ⟨_, rfl, later, rfl⟩
    | fails => exact absurd rfl (unfailing _ List.mem_cons_self)
    | stops => cases returned

theorem reproduces_prepare_statement : Reproduces Calms prepareStatement :=
  (reproduces_call sqliteOk).bind fun _ => reproduces_pure _

theorem reproduces_bind (value : α) : Reproduces Calms (Replikon.bind value) :=
  (reproduces_call sqliteOk).bind fun _ => reproduces_pure _

/-- A statement that leaves the script alone and does not depend on it. -/
theorem reproduces_execute (statement : Replica → Replica)
    (keeps : ∀ replica, (statement replica).script = replica.script)
    (blind : ∀ replica, statement replica.calm = (statement replica).calm) :
    Reproduces Calms (execute fun replica => some (statement replica)) := by
  refine (reproduces_call sqliteDone).bind fun result => reproduces_ite ?_ (reproduces_pure result)
  rintro left right ⟨unfailing, rfl⟩ value after returned
  cases returned
  refine ⟨_, rfl, ?_, blind left⟩
  rw [Replica.Unfailing, keeps]
  exact unfailing

theorem reproduces_fetch_rows (rows : List α) : Reproduces Calms (fetchRows rows) := by
  induction rows with
  | nil => exact (reproduces_call sqliteDone).bind fun _ => reproduces_pure _
  | cons first rest inductionHypothesis =>
    refine (reproduces_call sqliteRow).bind fun result => reproduces_ite ?_ (reproduces_pure _)
    exact inductionHypothesis.bind fun later => reproduces_pure _

theorem reproduces_return_if_error {result : Expected α} {rest : α → Program (Expected β)}
    (reproduces : ∀ value, Reproduces Calms (rest value)) :
    Reproduces Calms (returnIfError result rest) := by
  cases result with
  | error error => exact reproduces_pure _
  | ok value => exact reproduces value

theorem reproduces_return_if_result_error {result : SqliteResult} {rest : Program (Expected β)}
    (reproduces : Reproduces Calms rest) : Reproduces Calms (returnIfResultError result rest) :=
  reproduces_ite reproduces (reproduces_pure _)

/-- A SELECT reads tables, which are the same. -/
theorem reproduces_select {rows : Replica → List α} {next : List α → Program β}
    (blind : ∀ replica : Replica, rows replica.calm = rows replica)
    (onward : ∀ fetched, Reproduces Calms (next fetched)) :
    Reproduces Calms (get >>= fun replica => fetchRows (rows replica) >>= next) := by
  refine reproduces_get_bind ?_ fun replica => (reproduces_fetch_rows _).bind onward
  rintro left right ⟨_, rfl⟩
  rw [blind left]

end Calls

namespace MessagesDao

theorem reproduces_insert_intervals (result : SqliteResult) (intervals : List Interval) :
    Reproduces Calms (insertIntervals result intervals) := by
  induction intervals generalizing result with
  | nil => exact reproduces_pure result
  | cons interval rest inductionHypothesis =>
    refine (reproduces_bind _).bind fun (startResult, start) => ?_
    refine (reproduces_bind _).bind fun (endResult, finish) => ?_
    refine Reproduces.bind ?_ fun stepped => (reproduces_call _).bind fun reset =>
      reproduces_ite (inductionHypothesis _) (reproduces_pure _)
    cases start with
    | none => exact reproduces_execute id (fun _ => rfl) fun _ => rfl
    | some start =>
      cases finish with
      | none => exact reproduces_execute id (fun _ => rfl) fun _ => rfl
      | some finish =>
        exact reproduces_execute (fun replica =>
          { replica with searchIntervals := replica.searchIntervals ++ [(start, finish)] })
          (fun _ => rfl) fun _ => rfl

theorem reproduces_get_all_messages (author : Text) (intervals : List Interval) :
    Reproduces Calms (getAllMessages author intervals) := by
  refine reproduces_prepare_statement.bind fun prepared => reproduces_return_if_error fun _ => ?_
  refine (reproduces_execute (fun replica => { replica with searchIntervals := [] }) (fun _ => rfl)
    fun _ => rfl).bind fun cleared => reproduces_return_if_result_error ?_
  refine reproduces_prepare_statement.bind fun prepared => reproduces_return_if_error fun _ => ?_
  refine (reproduces_insert_intervals _ _).bind fun inserted => reproduces_return_if_result_error ?_
  refine reproduces_prepare_statement.bind fun prepared => reproduces_return_if_error fun _ => ?_
  refine (reproduces_bind _).bind fun (result, bound) => ?_
  exact reproduces_select (fun _ => rfl) fun rows => reproduces_pure _

theorem reproduces_get_headers : Reproduces Calms getHeaders := by
  refine reproduces_prepare_statement.bind fun prepared => reproduces_return_if_error fun _ => ?_
  exact reproduces_select (fun _ => rfl) fun rows => reproduces_pure _

end MessagesDao

/-- The setting is the same. -/
theorem Calms.setting (left right : Replica) (calms : Calms left right) :
    left.setting = right.setting := by
  obtain ⟨_, rfl⟩ := calms
  rfl

section Calls

variable {call : DaoCall}

theorem DaoCall.TellsHeader.reproduces (asked : call.TellsHeader) :
    Reproduces Calms call.program := by
  cases asked with
  | getHeaders => exact MessagesDao.reproduces_get_headers

theorem DaoCall.HandsOut.reproduces (asked : call.HandsOut) : Reproduces Calms call.program := by
  cases asked with
  | getAllMessages author intervals => exact MessagesDao.reproduces_get_all_messages author intervals

end Calls

namespace Log

variable {Signature : Type} (sodium : Sodium Signature)

theorem reproduces_get_header : Reproduces Calms getHeader :=
  getHeaderClient.reproduces Calms.setting fun _ asked => asked.reproduces

theorem reproduces_get_request (header : Header) : Reproduces Calms (getRequest header) :=
  (getRequestClient header).reproduces Calms.setting fun _ asked => asked.reproduces

theorem reproduces_get_update (request : Request) : Reproduces Calms (getUpdate sodium request) :=
  (getUpdateClient sodium request).reproduces Calms.setting fun _ asked => asked.reproduces

end Log

namespace Instance

/-- The second opening is the first one with nothing to disturb its calls; those of
the first do not fail. -/
def OpensCalmly (left right : Opening) : Prop :=
  (∀ outcome ∈ left.script, outcome ≠ .fails) ∧ right = { left with script := [] }

theorem reproduces_halt {α : Type} (reason : Stop) :
    Reproduces OpensCalmly (halt reason : Construction α) :=
  reproduces_of_never fun _ _ _ returned => by cases returned

theorem reproduces_assert_that (condition : Bool) :
    Reproduces OpensCalmly (assertThat condition) := by
  rintro ⟨ndebug, connected, database, searchIntervals, script⟩ _ ⟨unfailing, rfl⟩ value after returned
  simp only [EStateM.run, assertThat] at returned ⊢
  split at returned
  next holds =>
    cases returned
    exact ⟨_, if_pos holds, unfailing, rfl⟩
  next => cases returned

theorem reproduces_sqlite_call (code : Int) : Reproduces OpensCalmly (sqliteCall code) := by
  rintro ⟨ndebug, connected, database, searchIntervals, script⟩ _ ⟨unfailing, rfl⟩ value after returned
  cases script with
  | nil =>
    cases returned
    exact ⟨_, rfl, unfailing, rfl⟩
  | cons outcome rest =>
    have later : ∀ each ∈ rest, each ≠ Outcome.fails :=
      fun each listed => unfailing each (List.mem_cons_of_mem _ listed)
    cases outcome with
    | completes =>
      cases returned
      exact ⟨_, rfl, later, rfl⟩
    | fails => exact absurd rfl (unfailing _ List.mem_cons_self)
    | stops => cases returned

/-- An effect that leaves the script alone and does not depend on it. -/
theorem reproduces_modify (effect : Opening → Opening)
    (keeps : ∀ opening, (effect opening).script = opening.script)
    (blind : ∀ opening : Opening,
      effect { opening with script := [] } = { effect opening with script := [] }) :
    Reproduces OpensCalmly (modify effect : Construction Unit) := by
  rintro left _ ⟨unfailing, rfl⟩ value after returned
  cases returned
  refine ⟨_, rfl, ?_, blind left⟩
  rw [keeps]
  exact unfailing

theorem reproduces_create (creation : Creation) (listed : creation ∈ creations) :
    Reproduces OpensCalmly (create creation) := by
  have effect : Reproduces OpensCalmly (modify creation.effect : Construction Unit) := by
    simp only [creations, List.mem_cons, List.not_mem_nil, or_false] at listed
    rcases listed with rfl | rfl | rfl | rfl | rfl
    all_goals exact reproduces_modify _ (fun _ => rfl) fun _ => rfl
  refine reproduces_get_bind ?_ fun opening => reproduces_ite ?_ (reproduces_halt _)
  · rintro left _ ⟨_, rfl⟩
    have compiles : creation.compiles { left with script := [] } = creation.compiles left := by
      simp only [creations, List.mem_cons, List.not_mem_nil, or_false] at listed
      rcases listed with rfl | rfl | rfl | rfl | rfl <;> rfl
    simp only [compiles]
  · refine (reproduces_sqlite_call _).bind fun prepared => reproduces_ite ?_ ?_
    · have executed : Reproduces OpensCalmly (executeOnce creation.effect) :=
        (reproduces_sqlite_call _).bind fun result =>
          reproduces_ite (effect.bind fun _ => reproduces_pure _) (reproduces_pure _)
      exact executed.bind fun res => reproduces_assert_that _
    · exact (reproduces_assert_that _).bind fun _ => reproduces_halt _

theorem reproduces_create_all (listed : List Creation)
    (part : ∀ creation ∈ listed, creation ∈ creations) :
    Reproduces OpensCalmly (createAll listed) := by
  induction listed with
  | nil => exact reproduces_pure ()
  | cons creation rest inductionHypothesis =>
    exact (reproduces_create creation (part creation List.mem_cons_self)).bind fun _ =>
      inductionHypothesis fun other member => part other (List.mem_cons_of_mem _ member)

theorem reproduces_construct (self : SecurityUserInfo) : Reproduces OpensCalmly (construct self) := by
  have connected : Reproduces OpensCalmly connect := by
    refine (reproduces_sqlite_call _).bind fun result => reproduces_ite ?_ (reproduces_pure _)
    have joined := reproduces_modify (fun opening => { opening with connected := true })
      (fun _ => rfl) fun _ => rfl
    exact joined.bind fun _ => reproduces_pure _
  refine connected.bind fun res => (reproduces_assert_that _).bind fun _ => ?_
  refine (reproduces_create_all creations fun _ member => member).bind fun _ => ?_
  unfold privateKeyOf
  cases self.privKey with
  | some privKey => exact reproduces_pure privKey
  | none => exact reproduces_halt _

/-- While no call fails, a constructor that returns has opened what is stored. -/
theorem construct_disturbed (self : SecurityUserInfo) (ndebug : Bool) (database : Database)
    (script : List Outcome) (unfailing : ∀ outcome ∈ script, outcome ≠ .fails) (privKey : PrivKey)
    (after : Opening)
    (returned : (construct self).run (opening ndebug database script) = .ok privKey after) :
    self.privKey = some privKey ∧ ∃ rest, (∀ outcome ∈ rest, outcome ≠ .fails) ∧
      after = created { opening ndebug database rest with connected := true } := by
  obtain ⟨other, calmly, later, rfl⟩ := reproduces_construct self (opening ndebug database script)
    (opening ndebug database []) ⟨unfailing, rfl⟩ privKey after returned
  rw [construct_run] at calmly
  cases given : self.privKey with
  | none =>
    rw [given] at calmly
    cases calmly
  | some known =>
    rw [given] at calmly
    injection calmly with same state
    have script : after = { ({ after with script := [] } : Opening) with script := after.script } :=
      rfl
    refine ⟨congrArg some same, after.script, later, script.trans ?_⟩
    rw [← state]
    rfl

end Instance

end Replikon
