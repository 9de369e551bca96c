import Replikon.Foundation.AtomicWrites
import Replikon.Model.SecurityProvider

/-!
# Calls that are interrupted in their writes

A replica faces a script for its next SQLite calls. While the calls complete, a
read returns what it returns on a reliable database and uses up as many calls as
it makes. A write is made by four calls; it is atomic, so whichever of its calls
fails, and wherever the process stops, it has its whole effect or none.
-/

namespace Replikon

open Foundation

/-- The replica with what becomes of its next calls, and with its locals. -/
def Replica.facing (replica : Replica) (script : List Outcome) (stack : List SqliteResult) :
    Replica :=
  { replica with script := script, stack := stack }

@[simp] theorem Replica.facing_security (replica : Replica) (script : List Outcome)
    (stack : List SqliteResult) : (replica.facing script stack).security = replica.security := rfl

@[simp] theorem Replica.facing_key_value (replica : Replica) (script : List Outcome)
    (stack : List SqliteResult) : (replica.facing script stack).keyValue = replica.keyValue := rfl

/-- Calls that complete. -/
def completing (calls : Nat) : List Outcome := List.replicate calls .completes

/-- How the four calls of a write go: preparing the statement, binding the key
and the value, and the step. A key that is not bound is NULL, which the step
refuses; a value that is not bound would be stored as NULL, and such a write is
not atomic. -/
inductive Ending where
  | made
  | notPrepared
  | notBound
  | notStepped
  | stopped (before : Fin 4)
  deriving DecidableEq

/-- What becomes of the calls of a write. -/
def Ending.calls : Ending → List Outcome
  | .made => completing 4
  | .notPrepared => [.fails]
  | .notBound => [.completes, .fails, .completes, .completes]
  | .notStepped => completing 3 ++ [.fails]
  | .stopped before => completing before.val ++ [.stops]

/-- What becomes of the write. -/
def Ending.fate : Ending → Fate
  | .made => .made
  | .stopped _ => .stopped
  | _ => .failed

/-- A write is made by four calls that complete. -/
theorem Ending.eq_made {ending : Ending} (fate : ending.fate = .made) : ending = .made := by
  cases ending with
  | made => rfl
  | _ => cases fate

/-- A write is stopped before one of its calls. -/
theorem Ending.eq_stopped {ending : Ending} (fate : ending.fate = .stopped) :
    ∃ before, ending = .stopped before := by
  cases ending with
  | stopped before => exact ⟨before, rfl⟩
  | _ => cases fate

section Reads

variable {replica : Replica} {rest : List Outcome} {stack : List SqliteResult}

/-- Preparing a statement is one call. -/
theorem prepare_completes (calls : Nat) :
    prepareStatement.run (replica.facing (completing (calls + 1) ++ rest) stack) =
      .ok (.ok ()) (replica.facing (completing calls ++ rest) stack) := rfl

/-- So is binding a value. -/
theorem bind_completes {α : Type} (calls : Nat) (value : α) :
    (Replikon.bind value).run (replica.facing (completing (calls + 1) ++ rest) stack) =
      .ok (.ok, some value) (replica.facing (completing calls ++ rest) stack) := rfl

/-- So is reading one row, or the end. -/
theorem fetch_row_completes {α : Type} (calls : Nat) (rows : List α) :
    (fetchRow rows).run (replica.facing (completing (calls + 1) ++ rest) stack) =
      .ok (if rows.isEmpty then (.ok, none) else (.row, rows.head?))
        (replica.facing (completing calls ++ rest) stack) := by
  cases rows <;> rfl

/-- Reading rows makes one call more than there are rows. -/
theorem fetch_rows_completes {α : Type} (rows : List α) :
    (fetchRows rows).run (replica.facing (completing (rows.length + 1) ++ rest) stack) =
      .ok rows (replica.facing rest stack) := by
  induction rows with
  | nil => rfl
  | cons first later inductionHypothesis =>
    have stepped : (call sqliteRow).run
        (replica.facing (completing ((first :: later).length + 1) ++ rest) stack) =
          .ok .row (replica.facing (completing (later.length + 1) ++ rest) stack) := rfl
    rw [fetchRows, bind_ok _ stepped, if_pos rfl, bind_ok _ inductionHypothesis]
    rfl

/-- A value is read by three calls. -/
theorem KeyValueDao.get_value_completes {α : Type} (read : Sql.Value → α) (key : Text) :
    (KeyValueDao.getValue read key).run (replica.facing (completing 3 ++ rest) stack) =
      .ok (.ok ((replica.keyValue.find key).map read)) (replica.facing rest stack) := by
  rw [KeyValueDao.getValue, bind_ok _ (prepare_completes 2)]
  simp only [returnIfError]
  rw [bind_ok _ (bind_completes 1 key), bind_ok _ get_run]
  simp only [Option.bind_some, Replica.facing_key_value]
  rw [bind_ok _ (fetch_row_completes 0 _)]
  cases replica.keyValue.find key <;> rfl

/-- So is the row of an author. -/
theorem SecurityDao.get_user_info_completes (author : Author) :
    (SecurityDao.getUserInfo author).run (replica.facing (completing 3 ++ rest) stack) =
      .ok (.ok ((replica.security.find author).map SecurityDao.userInfo))
        (replica.facing rest stack) := by
  rw [SecurityDao.getUserInfo, bind_ok _ (prepare_completes 2)]
  simp only [returnIfError]
  rw [bind_ok _ (bind_completes 1 author)]
  simp only [returnIfResultError, if_true, Option.bind_some]
  rw [bind_ok _ get_run]
  simp only [Replica.facing_security]
  rw [bind_ok _ (fetch_row_completes 0 _)]
  cases replica.security.find author <;> rfl

theorem SecurityDao.get_admins_user_info_completes :
    SecurityDao.getAdminsUserInfo.run (replica.facing
      (completing ((replica.security.rows.filter (·.isAdmin)).length + 2) ++ rest) stack) =
        .ok (.ok ((replica.security.rows.filter (·.isAdmin)).map SecurityDao.userInfo))
          (replica.facing rest stack) := by
  rw [SecurityDao.getAdminsUserInfo, bind_ok _ (prepare_completes _)]
  simp only [returnIfError]
  rw [bind_ok _ get_run]
  simp only [Replica.facing_security]
  rw [bind_ok _ (fetch_rows_completes _)]
  rfl

theorem SecurityDao.get_all_public_keys_completes :
    SecurityDao.getAllPublicKeys.run (replica.facing
      (completing (replica.security.rows.length + 2) ++ rest) stack) =
        .ok (.ok (replica.security.rows.map SecurityDao.publicKey))
          (replica.facing rest stack) := by
  rw [SecurityDao.getAllPublicKeys, bind_ok _ (prepare_completes _)]
  simp only [returnIfError]
  rw [bind_ok _ get_run]
  simp only [Replica.facing_security]
  rw [bind_ok _ (fetch_rows_completes _)]
  rfl

/-- The check of a signature makes the calls that look the key up. -/
theorem SecurityProvider.is_valid_completes {Signature T : Type} (sodium : Sodium Signature)
    (serialize : T → Buffer) (signature : Signature) (author : Text) (value : T) :
    (SecurityProvider.isValid sodium serialize signature author value).run
      (replica.facing (completing 3 ++ rest) stack) =
        .ok (replica.verifies sodium author (serialize value) signature)
          (replica.facing rest stack) := by
  rw [SecurityProvider.isValid, bind_ok _ (SecurityDao.get_user_info_completes author)]
  unfold Replica.verifies
  cases replica.security.find author <;> rfl

end Reads

section Writes

variable (replica : Replica) (ending : Ending) (rest : List Outcome) (stack : List SqliteResult)

/-- A write of one value that is made reports so. -/
theorem KeyValueDao.insert_value_made (key : Text) (value : Sql.Value) :
    (KeyValueDao.insertValue key value).run (replica.facing (Ending.made.calls ++ rest) stack) =
      .ok .ok ({ replica with keyValue := replica.keyValue.insertOrReplace key value }.facing
        rest stack) := rfl

/-- One that fails reports so and has no effect. -/
theorem KeyValueDao.insert_value_failed (key : Text) (value : Sql.Value)
    (failed : ending.fate = .failed) :
    (KeyValueDao.insertValue key value).run (replica.facing (ending.calls ++ rest) stack) =
      .ok .error (replica.facing rest stack) := by
  cases ending with
  | made => cases failed
  | notPrepared => rfl
  | notBound => rfl
  | notStepped => rfl
  | stopped before => cases failed

/-- One that is stopped has no effect. -/
theorem KeyValueDao.insert_value_stopped (key : Text) (value : Sql.Value)
    (stopped : ending.fate = .stopped) :
    (KeyValueDao.insertValue key value).run (replica.facing (ending.calls ++ rest) stack) =
      .error .killed (replica.facing rest stack) := by
  obtain ⟨before, rfl⟩ := Ending.eq_stopped stopped
  match before with
  | 0 => rfl
  | 1 => rfl
  | 2 => rfl
  | 3 => rfl

/-- The write of a key that is made. What it reports also depends on the local
it starts from. -/
theorem SecurityDao.insert_key_made (statement : SecurityTable → Text → PubKey → SecurityTable)
    (author : Author) (pubKey : PubKey) : ∃ result after,
      (SecurityDao.insertKey statement author pubKey).run
        (replica.facing (Ending.made.calls ++ rest) stack) =
          .ok result ({ replica with security := statement replica.security author pubKey }.facing
            rest after) := by
  cases stack <;> exact ⟨_, _, rfl⟩

/-- One that fails has no effect. -/
theorem SecurityDao.insert_key_failed (statement : SecurityTable → Text → PubKey → SecurityTable)
    (author : Author) (pubKey : PubKey) (failed : ending.fate = .failed) : ∃ result after,
      (SecurityDao.insertKey statement author pubKey).run
        (replica.facing (ending.calls ++ rest) stack) = .ok result (replica.facing rest after) := by
  cases ending with
  | made => cases failed
  | notPrepared => exact ⟨_, _, rfl⟩
  | notBound => cases stack <;> exact ⟨_, _, rfl⟩
  | notStepped => cases stack <;> exact ⟨_, _, rfl⟩
  | stopped before => cases failed

/-- One that is stopped has no effect. -/
theorem SecurityDao.insert_key_stopped (statement : SecurityTable → Text → PubKey → SecurityTable)
    (author : Author) (pubKey : PubKey) (stopped : ending.fate = .stopped) : ∃ after,
      (SecurityDao.insertKey statement author pubKey).run
        (replica.facing (ending.calls ++ rest) stack) =
          .error .killed (replica.facing rest after) := by
  obtain ⟨before, rfl⟩ := Ending.eq_stopped stopped
  match before with
  | 0 => exact ⟨_, rfl⟩
  | 1 => cases stack <;> exact ⟨_, rfl⟩
  | 2 => cases stack <;> exact ⟨_, rfl⟩
  | 3 => cases stack <;> exact ⟨_, rfl⟩

end Writes

end Replikon
