import Replikon.Foundation.Ensures
import Replikon.Foundation.Guarantees
import Replikon.Model.Instance

/-!
# Opening a database loses nothing

Every statement of the constructor creates a table that is missing, or does
nothing. Wherever the constructor stops, what the tables hold is what they held
before. When it returns in a build with assertions, all tables are there.
-/

namespace Replikon

open Foundation

/-- What the tables hold; a missing table holds nothing. -/
def Database.contents (database : Database) : MessagesTable × SecurityTable × KeyValueTable :=
  (database.messages.getD .empty, database.security.getD .empty, database.keyValue.getD .empty)

namespace Instance

variable {α : Type}

/-- The later state is one of the same build, whose tables hold the same, and
no table has disappeared. -/
structure Retains (before after : Opening) : Prop where
  ndebug : after.ndebug = before.ndebug
  contents : after.database.contents = before.database.contents
  messages : before.database.messages.isSome → after.database.messages.isSome
  security : before.database.security.isSome → after.database.security.isSome
  keyValue : before.database.keyValue.isSome → after.database.keyValue.isSome

instance : Std.Refl Retains := ⟨fun _ => ⟨rfl, rfl, id, id, id⟩⟩

instance : IsTrans Opening Retains :=
  ⟨fun _ _ _ first second => ⟨second.ndebug.trans first.ndebug, second.contents.trans first.contents,
    second.messages ∘ first.messages, second.security ∘ first.security,
    second.keyValue ∘ first.keyValue⟩⟩

theorem keeps_halt (reason : Stop) : Keeps Retains (halt reason : Construction α) :=
  fun opening => refl_of Retains opening

theorem keeps_assert_that (condition : Bool) : Keeps Retains (assertThat condition) := by
  intro opening
  simp only [Guarantees, EStateM.run, assertThat]
  cases condition || opening.ndebug <;> exact refl_of Retains opening

theorem keeps_sqlite_call (code : Int) : Keeps Retains (sqliteCall code) := by
  rintro ⟨ndebug, connected, database, searchIntervals, script⟩
  cases script with
  | nil => exact refl_of Retains _
  | cons outcome rest => cases outcome <;> exact ⟨rfl, rfl, id, id, id⟩

theorem keeps_modify (effect : Opening → Opening) (retains : ∀ opening, Retains opening (effect opening)) :
    Keeps Retains (modify effect : Construction Unit) :=
  fun opening => retains opening

theorem keeps_execute_once (effect : Opening → Opening)
    (retains : ∀ opening, Retains opening (effect opening)) :
    Keeps Retains (executeOnce effect) := by
  refine (keeps_sqlite_call sqliteDone).bind fun result => keeps_ite ?_ (keeps_pure _)
  exact (keeps_modify effect retains).bind fun _ => keeps_pure _

theorem keeps_connect : Keeps Retains connect := by
  refine (keeps_sqlite_call sqliteOk).bind fun result => keeps_ite ?_ (keeps_pure _)
  have modified := keeps_modify (fun opening => { opening with connected := true })
    fun _ => ⟨rfl, rfl, id, id, id⟩
  exact modified.bind fun _ => keeps_pure _

/-- The effects of the statements create what is missing. -/
theorem creations_retain (creation : Creation) (listed : creation ∈ creations) (opening : Opening) :
    Retains opening (creation.effect opening) := by
  simp only [creations, List.mem_cons, List.not_mem_nil, or_false] at listed
  rcases listed with rfl | rfl | rfl | rfl | rfl
  · exact ⟨rfl, rfl, fun _ => rfl, id, id⟩
  · exact ⟨rfl, rfl, id, id, id⟩
  · exact ⟨rfl, rfl, id, id, id⟩
  · exact ⟨rfl, rfl, id, fun _ => rfl, id⟩
  · exact ⟨rfl, rfl, id, id, fun _ => rfl⟩

theorem keeps_create (creation : Creation) (listed : creation ∈ creations) :
    Keeps Retains (create creation) := by
  refine keeps_get.bind fun opening => keeps_ite ?_ (keeps_halt _)
  refine (keeps_sqlite_call _).bind fun prepared => keeps_ite ?_ ?_
  · have executed := keeps_execute_once creation.effect (creations_retain creation listed)
    exact executed.bind fun res => keeps_assert_that _
  · exact (keeps_assert_that false).bind fun _ => keeps_halt _

theorem keeps_create_all (listed : List Creation) (part : ∀ creation ∈ listed, creation ∈ creations) :
    Keeps Retains (createAll listed) := by
  induction listed with
  | nil => exact keeps_pure ()
  | cons creation rest inductionHypothesis =>
    exact (keeps_create creation (part creation List.mem_cons_self)).bind fun _ =>
      inductionHypothesis fun other member => part other (List.mem_cons_of_mem _ member)

theorem keeps_construct (self : SecurityUserInfo) : Keeps Retains (construct self) := by
  refine keeps_connect.bind fun res => (keeps_assert_that _).bind fun _ => ?_
  refine (keeps_create_all creations fun _ member => member).bind fun _ => ?_
  unfold privateKeyOf
  cases self.privKey with
  | some privKey => exact keeps_pure privKey
  | none => exact keeps_halt _

/-- A SQLite call uses up its outcome and changes nothing else. -/
theorem sqlite_call_ensures (code : Int) (opening : Opening) :
    Ensures (sqliteCall code) opening fun _ after =>
      ∃ script, after = { opening with script := script } := by
  obtain ⟨ndebug, connected, database, searchIntervals, script⟩ := opening
  intro result after ran
  cases script with
  | nil =>
    cases ran
    exact ⟨[], rfl⟩
  | cons outcome rest =>
    cases outcome with
    | completes =>
      cases ran
      exact ⟨rest, rfl⟩
    | fails =>
      cases ran
      exact ⟨rest, rfl⟩
    | stops => cases ran

/-- In a build with assertions, what follows an assertion knows its condition. -/
theorem assert_that_ensures (condition : Bool) (opening : Opening) (asserts : opening.ndebug = false) :
    Ensures (assertThat condition) opening fun _ after => condition = true ∧ after = opening := by
  intro value after ran
  cases condition with
  | true =>
    cases ran
    exact ⟨rfl, rfl⟩
  | false =>
    simp [EStateM.run, assertThat, asserts] at ran

/-- A statement that steps successfully has its effect. -/
theorem execute_once_ensures (effect : Opening → Opening) (opening : Opening) :
    Ensures (executeOnce effect) opening fun result after =>
      ∃ script, after =
        if result = .ok then effect { opening with script := script }
        else { opening with script := script } := by
  refine (sqlite_call_ensures sqliteDone opening).bind ?_
  rintro result _ ⟨script, rfl⟩
  by_cases ok : result = .ok
  · rw [if_pos ok]
    exact ensures_of_run _ _ rfl ⟨script, by rw [if_pos ok]⟩
  · rw [if_neg ok]
    exact ensures_of_run _ _ rfl ⟨script, by rw [if_neg ok]⟩

theorem connect_ensures (opening : Opening) :
    Ensures connect opening fun result after => after.ndebug = opening.ndebug ∧
      (result = .ok → ∃ script, after = { opening with connected := true, script := script }) := by
  refine (sqlite_call_ensures sqliteOk opening).bind ?_
  rintro result _ ⟨script, rfl⟩
  by_cases ok : result = .ok
  · rw [if_pos ok]
    exact ensures_of_run _ _ rfl ⟨rfl, fun _ => ⟨script, rfl⟩⟩
  · rw [if_neg ok]
    exact ensures_of_run _ _ rfl ⟨rfl, fun impossible => absurd impossible (by decide)⟩

theorem get_ensures (opening : Opening) :
    Ensures (get : Construction Opening) opening fun read after => opening = read ∧ opening = after :=
  ensures_of_run opening opening rfl ⟨rfl, rfl⟩

/-- A statement that the constructor gets past has had its effect. -/
theorem create_ensures (creation : Creation) (listed : creation ∈ creations) (opening : Opening)
    (asserts : opening.ndebug = false) :
    Ensures (create creation) opening fun _ after =>
      ∃ script, after = creation.effect { opening with script := script } := by
  refine (get_ensures opening).bind ?_
  rintro _ _ ⟨rfl, rfl⟩
  by_cases connected : opening.connected = true
  · rw [if_pos connected]
    refine (sqlite_call_ensures _ opening).bind ?_
    rintro prepared _ ⟨script, rfl⟩
    by_cases ok : prepared = .ok
    · rw [if_pos ok]
      refine (execute_once_ensures creation.effect _).bind ?_
      rintro res after ⟨later, stepped⟩
      have build : after.ndebug = false := by
        rw [stepped]
        split
        · exact (creations_retain creation listed _).ndebug.trans asserts
        · exact asserts
      refine (assert_that_ensures _ after build).mono ?_
      rintro _ _ ⟨done, rfl⟩
      rw [if_pos (by simpa using done)] at stepped
      exact ⟨later, stepped⟩
    · rw [if_neg ok]
      refine (assert_that_ensures false { opening with script := script } asserts).bind ?_
      rintro _ _ ⟨impossible, _⟩
      exact absurd impossible (by decide)
  · rw [if_neg connected]
    exact ensures_of_stop .undefined opening rfl

/-- All statements together have created what was missing. -/
def created (opening : Opening) : Opening :=
  { opening with
    database := ⟨some (opening.database.messages.getD .empty), true,
      some (opening.database.security.getD .empty), some (opening.database.keyValue.getD .empty)⟩
    searchIntervals := some [] }

/-- Running the statements one after another has all their effects. -/
theorem create_all_ensures (opening : Opening) (asserts : opening.ndebug = false) :
    Ensures (createAll creations) opening fun _ after =>
      ∃ script, after = created { opening with script := script } := by
  have step : ∀ creation ∈ creations, ∀ opening : Opening, opening.ndebug = false →
      Ensures (create creation) opening fun _ after =>
        after.ndebug = false ∧ ∃ script, after = creation.effect { opening with script := script } := by
    intro creation listed opening asserts
    refine (create_ensures creation listed opening asserts).mono ?_
    rintro _ after ⟨script, rfl⟩
    exact ⟨(creations_retain creation listed _).ndebug.trans asserts, script, rfl⟩
  refine (step initMessages (by simp [creations]) opening asserts).bind ?_
  rintro _ first ⟨build, firstScript, rfl⟩
  refine (step indexMessages (by simp [creations]) _ build).bind ?_
  rintro _ second ⟨build, secondScript, rfl⟩
  refine (step tempSearchIntervals (by simp [creations]) _ build).bind ?_
  rintro _ third ⟨build, thirdScript, rfl⟩
  refine (step initSecurity (by simp [creations]) _ build).bind ?_
  rintro _ fourth ⟨build, fourthScript, rfl⟩
  refine (step initKeyValue (by simp [creations]) _ build).bind ?_
  rintro _ fifth ⟨_, lastScript, rfl⟩
  exact ensures_pure () ⟨lastScript, rfl⟩

theorem private_key_ensures (self : SecurityUserInfo) (opening : Opening) :
    Ensures (privateKeyOf self) opening fun privKey after =>
      self.privKey = some privKey ∧ after = opening := by
  unfold privateKeyOf
  cases given : self.privKey with
  | some privKey => exact ensures_pure privKey ⟨rfl, rfl⟩
  | none => exact ensures_of_stop .killed opening rfl

/-- A constructor with assertions that returns has connected, created what was
missing and found a private key. -/
theorem construct_ensures (self : SecurityUserInfo) (database : Database) (script : List Outcome) :
    Ensures (construct self) (opening false database script) fun privKey after =>
      self.privKey = some privKey ∧
        ∃ rest, after = created { opening false database rest with connected := true } := by
  refine (connect_ensures _).bind ?_
  rintro res connected ⟨build, joined⟩
  refine (assert_that_ensures _ connected build).bind ?_
  rintro _ _ ⟨succeeded, rfl⟩
  obtain ⟨connectScript, rfl⟩ := joined (by simpa using succeeded)
  refine (create_all_ensures _ rfl).bind ?_
  rintro _ _ ⟨rest, rfl⟩
  refine (private_key_ensures self _).mono ?_
  rintro privKey _ ⟨given, rfl⟩
  exact ⟨given, rest, rfl⟩

section Reliable

variable {opening : Opening} (reliable : opening.script = [])
include reliable

theorem sqlite_call_run (code : Int) : (sqliteCall code).run opening = .ok (toEnum code) opening := by
  simp only [EStateM.run, sqliteCall, reliable]

/-- On a database that does not fail every statement that compiles takes effect. -/
theorem create_run (creation : Creation) (connected : opening.connected = true)
    (compiles : creation.compiles opening = true) :
    (create creation).run opening = .ok () (creation.effect opening) := by
  have executed : (executeOnce creation.effect).run opening = .ok .ok (creation.effect opening) := by
    rw [executeOnce, bind_returned _ (sqlite_call_run reliable sqliteDone)]
    rfl
  have prepared : (create creation).run opening = (do
      let prepared ← sqliteCall (if creation.compiles opening then sqliteOk else sqliteError)
      if prepared = .ok then
        let res ← executeOnce creation.effect
        assertThat (res == .ok)
      else do
        assertThat false
        halt .undefined : Construction Unit).run opening := by
    rw [create, bind_returned _ (rfl : (get : Construction Opening).run opening = .ok opening opening),
      if_pos connected]
  rw [prepared, compiles, bind_returned _ (sqlite_call_run reliable _)]
  simp only [if_true]
  rw [if_pos (by decide), bind_returned _ executed]
  rfl

/-- So do all of them on a new connection. -/
theorem create_all_run (connected : opening.connected = true)
    (begun : opening.searchIntervals = none) :
    (createAll creations).run opening = .ok () (created opening) := by
  obtain ⟨ndebug, _, database, _, script⟩ := opening
  cases connected
  cases begun
  cases reliable
  simp only [createAll, creations]
  rw [bind_returned _ (create_run rfl initMessages rfl rfl),
    bind_returned _ (create_run rfl indexMessages rfl rfl),
    bind_returned _ (create_run rfl tempSearchIntervals rfl rfl),
    bind_returned _ (create_run rfl initSecurity rfl rfl),
    bind_returned _ (create_run rfl initKeyValue rfl rfl)]
  rfl

end Reliable

/-- Without failures the constructor returns exactly if there is a private key. -/
theorem construct_run (self : SecurityUserInfo) (ndebug : Bool) (database : Database) :
    (construct self).run (opening ndebug database []) =
      match self.privKey with
      | some privKey => .ok privKey (created { opening ndebug database [] with connected := true })
      | none => .error .killed (created { opening ndebug database [] with connected := true }) := by
  let start : Opening := { opening ndebug database [] with connected := true }
  have joined : connect.run (opening ndebug database []) = .ok .ok start := by
    rw [connect, bind_returned _ (sqlite_call_run rfl sqliteOk)]
    rfl
  have all : (createAll creations).run start = .ok () (created start) := create_all_run rfl rfl rfl
  rw [construct, bind_returned _ joined,
    bind_returned _ (rfl : (assertThat (SqliteResult.ok == .ok)).run start = .ok () start),
    bind_returned _ all, privateKeyOf]
  cases self.privKey <;> rfl

/-- The instance over tables that have all been created. -/
theorem of_opening_created (self : SecurityUserInfo) (privKey : PrivKey)
    (stack : List SqliteResult) (opening : Opening) :
    ofOpening self privKey stack (created opening) = some
      { ndebug := opening.ndebug
        self := self.author
        selfPubKey := self.pubKey
        selfPrivKey := privKey
        messages := opening.database.contents.1
        searchIntervals := []
        security := opening.database.contents.2.1
        keyValue := opening.database.contents.2.2
        script := opening.script
        stack := stack } := rfl

/-- Wherever its SQLite calls fail or stop, the constructor leaves what the
tables hold as it was, and no table disappears. If it returns in a build with
assertions, the instance has exactly what was stored, under the given identity
and with an empty temporary table. If no call fails, it returns exactly when the
identity has a private key. -/
theorem construction_exact (self : SecurityUserInfo) (ndebug : Bool) (database : Database)
    (script : List Outcome) (stack : List SqliteResult) :
    Guarantees (construct self) (opening ndebug database script)
        (fun privKey after => Retains (opening ndebug database script) after ∧
          (ndebug = false → self.privKey = some privKey ∧
            ∃ replica, ofOpening self privKey stack after = some replica ∧
              (replica.messages, replica.security, replica.keyValue) = database.contents ∧
              replica.searchIntervals = [] ∧ replica.self = self.author ∧
              replica.selfPubKey = self.pubKey ∧ replica.selfPrivKey = privKey))
        (Retains (opening ndebug database script)) ∧
      ((∃ privKey after, (construct self).run (opening ndebug database []) = .ok privKey after) ↔
        self.privKey.isSome = true) := by
  constructor
  · have retained := keeps_construct self (opening ndebug database script)
    unfold Guarantees at retained ⊢
    cases ended : (construct self).run (opening ndebug database script) with
    | error reason after =>
      rw [ended] at retained
      exact retained
    | ok privKey after =>
      rw [ended] at retained
      refine ⟨retained, ?_⟩
      rintro rfl
      obtain ⟨given, rest, rfl⟩ := construct_ensures self database script privKey after ended
      exact ⟨given, _, of_opening_created self privKey stack _, rfl, rfl, rfl, rfl, rfl⟩
  · rw [construct_run]
    cases self.privKey with
    | none =>
      constructor
      · rintro ⟨_, _, ran⟩
        cases ran
      · intro present
        cases present
    | some privKey => exact ⟨fun _ => rfl, fun _ => ⟨privKey, _, rfl⟩⟩

end Instance

end Replikon
