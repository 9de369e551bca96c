import Replikon.Foundation.Prefixes
import Replikon.Network.Delivery
import Replikon.Refinement.Authenticity

/-!
# Complete pulls keep every replica at a prefix

Replicas add messages under their own names and pull from each other, each pull
being one step. What an author has added so far is its history. The invariant:
at every replica the rows of an author are those of a prefix of that author's
history, the whole of it and in order at the author's own replica. Elsewhere the
rows stand in the order in which the joins of the pulls delivered them. A message
added extends the history and the author's own rows alike; a pull completes the
puller's prefixes to those of the source, when these are longer.
-/

namespace Replikon.Network

open Foundation MessagesTable

variable {ι : Type} {Signature : Type} (sodium : Sodium Signature) (name : ι → Author)
  (start : ι → Replica)

/-- A message of an author under its number. -/
def authoredMessage (author : ι) (entry : (UInt64 × Text) × Nat) : ChatMessage :=
  ⟨name author, UInt64.ofNat entry.2, entry.1.1, entry.1.2⟩

/-- The row of that message, signed by its author. -/
def authoredRow (author : ι) (entry : (UInt64 × Text) × Nat) : MessageColumns :=
  MessagesDao.toColumns ⟨authoredMessage name author entry,
    sodium.toBytes (sodium.signDetached (Serde.chatMessage (authoredMessage name author entry))
      (start author).selfPrivKey)⟩

/-- The history of an author: what it added, numbered from one and signed. -/
def history (entries : List (UInt64 × Text)) (author : ι) : List MessageColumns :=
  (entries.zipIdx 1).map (authoredRow sodium name start author)

section History

theorem history_length (entries : List (UInt64 × Text)) (author : ι) :
    (history sodium name start entries author).length = entries.length := by
  simp [history]

/-- A further message extends the history at its end. -/
theorem history_append (entries : List (UInt64 × Text)) (entry : UInt64 × Text) (author : ι) :
    history sodium name start (entries ++ [entry]) author =
      history sodium name start entries author ++
        [authoredRow sodium name start author (entry, entries.length + 1)] := by
  simp [history, List.zipIdx_append, Nat.add_comm]

/-- The rows of a history are those of its entries. -/
theorem mem_history (entries : List (UInt64 × Text)) (author : ι) (row : MessageColumns)
    (member : row ∈ history sodium name start entries author) :
    ∃ entry ∈ entries, ∃ number, row = authoredRow sodium name start author (entry, number) := by
  obtain ⟨⟨entry, number⟩, listed, rfl⟩ := List.mem_map.mp member
  exact ⟨entry, List.fst_mem_of_mem_zipIdx listed, number, rfl⟩

/-- A row of a history has its place as its lamport. -/
theorem history_lamports (entries : List (UInt64 × Text)) (author : ι)
    (few : entries.length < 2 ^ 63) :
    (history sodium name start entries author).map (·.lamport.toInt) =
      (List.range' 1 entries.length).map Int.ofNat := by
  rw [history, List.map_map]
  have each : ∀ entry ∈ entries.zipIdx 1,
      ((fun row : MessageColumns => row.lamport.toInt) ∘ authoredRow sodium name start author) entry =
        Int.ofNat entry.2 := by
    intro entry member
    have bound := List.snd_lt_of_mem_zipIdx member
    have small : (UInt64.ofNat entry.2).toNat = entry.2 := by
      apply UInt64.toNat_ofNat_of_lt'
      rw [UInt64.size]
      omega
    change (UInt64.ofNat entry.2).toInt64.toInt = entry.2
    rw [signed_value, small, if_pos (by omega)]
  rw [List.map_congr_left each, ← List.zipIdx_map_snd 1 entries, List.map_map]
  rfl

/-- The rows of a history are told apart. -/
theorem history_distinct (entries : List (UInt64 × Text)) (author : ι)
    (few : entries.length < 2 ^ 63) :
    ((history sodium name start entries author).map MessageColumns.identity).Nodup := by
  have lamports : ((history sodium name start entries author).map (·.lamport.toInt)).Nodup := by
    rw [history_lamports sodium name start entries author few]
    exact List.Nodup.map Int.ofNat_injective List.nodup_range'
  have same : (history sodium name start entries author).map (·.lamport.toInt) =
      ((history sodium name start entries author).map MessageColumns.identity).map
        (·.2.toInt) := by
    rw [List.map_map]
    rfl
  rw [same] at lamports
  exact lamports.of_map _

end History

variable [DecidableEq ι]

/-- The steps of a network of complete pulls. A message to add comes with a given
lamport, which the log replaces. -/
inductive Sync (ι : Type) where
  | add (author : ι) (given originTs : UInt64) (body : Text)
  | pull (source puller : ι) (apart : source ≠ puller)

/-- One step. There is none when a replica stops. -/
def sync (state : ι → Replica) : Sync ι → Option (ι → Replica)
  | .add author given originTs body =>
    match (Log.addNewMessage sodium (name author) ⟨name author, given, originTs, body⟩).run
        (state author) with
    | .ok _ after => some (Function.update state author after)
    | .error _ _ => none
  | .pull source puller _ =>
    match Log.pull sodium (state source) (state puller) with
    | .ok pulled => some (Function.update (Function.update state source pulled.source)
        puller pulled.puller)
    | .error _ => none

/-- What one author adds in a run. -/
def authored (actions : List (Sync ι)) (author : ι) : List (UInt64 × Text) :=
  actions.filterMap fun
    | .add other _ originTs body => if other = author then some (originTs, body) else none
    | .pull _ _ _ => none

/-- A signature that was made verifies under the matching public key. -/
def Honest : Prop :=
  ∀ bytes privKey,
    sodium.verifyDetached (sodium.signDetached bytes privKey) bytes (sodium.publicKey privKey) = true

omit [DecidableEq ι] in
/-- Replicas that start empty, under distinct names without NUL bytes, with
databases that do not fail, each with every author's correct key. -/
structure Setting : Prop where
  honest : Honest sodium
  reliable : ∀ replica, (start replica).Reliable
  empty : ∀ replica, (start replica).messages.columns = []
  distinct : Function.Injective name
  clean : ∀ author, (0 : Byte) ∉ name author
  registered : ∀ replica author, (start replica).registeredKey (name author) =
    some (sodium.publicKey (start author).selfPrivKey)

/-- The bodies added are free of NUL bytes, and no author adds `2^63 - 1` of them. -/
structure Moderate (actions : List (Sync ι)) : Prop where
  clean : ∀ author, ∀ entry ∈ authored actions author, (0 : Byte) ∉ entry.2
  few : ∀ author, (authored actions author).length < 2 ^ 63 - 1

/-- The rows of an author at a replica. -/
def rowsOf (state : ι → Replica) (replica author : ι) : List MessageColumns :=
  (state replica).messages.columns.filter fun row => row.author = name author

/-- After the given actions every replica holds a prefix of every history. -/
structure Agreement (actions : List (Sync ι)) (state : ι → Replica) : Prop where
  reliable : ∀ replica, (state replica).Reliable
  security : ∀ replica, (state replica).security = (start replica).security
  privKey : ∀ replica, (state replica).selfPrivKey = (start replica).selfPrivKey
  known : ∀ replica, ∀ row ∈ (state replica).messages.columns, ∃ author, row.author = name author
  held : ∀ replica author, ∃ count, count ≤ (authored actions author).length ∧
    (rowsOf name state replica author).Perm
      ((history sodium name start (authored actions author) author).take count)
  own : ∀ author, rowsOf name state author author =
    history sodium name start (authored actions author) author

variable {sodium name start}

theorem authored_append (before after : List (Sync ι)) (author : ι) :
    authored (before ++ after) author = authored before author ++ authored after author := by
  simp [authored]

theorem Moderate.before {before after : List (Sync ι)} (moderate : Moderate (before ++ after)) :
    Moderate before := by
  refine ⟨?_, ?_⟩
  · intro author entry member
    exact moderate.clean author entry (by simp [authored_append, member])
  · intro author
    have few := moderate.few author
    rw [authored_append, List.length_append] at few
    omega

/-- A message added extends the history of its author. -/
theorem authored_add_self (actions : List (Sync ι)) (author : ι) (given originTs : UInt64)
    (body : Text) : authored (actions ++ [.add author given originTs body]) author =
      authored actions author ++ [(originTs, body)] := by
  rw [authored_append]
  simp [authored]

/-- It extends no other history. -/
theorem authored_add_other (actions : List (Sync ι)) (author other : ι) (given originTs : UInt64)
    (body : Text) (different : other ≠ author) :
    authored (actions ++ [.add author given originTs body]) other = authored actions other := by
  rw [authored_append]
  simp [authored, different.symm]

/-- A pull extends no history. -/
theorem authored_pull (actions : List (Sync ι)) (source puller : ι) (apart : source ≠ puller)
    (author : ι) :
    authored (actions ++ [.pull source puller apart]) author = authored actions author := by
  rw [authored_append]
  simp [authored]

omit [DecidableEq ι] in
/-- The later replicas have the given further rows; their databases do not fail,
and keys are as before. -/
structure Stores (before after : ι → Replica) (rows : ι → List MessageColumns) : Prop where
  reliable : ∀ replica, (after replica).Reliable
  security : ∀ replica, (after replica).security = (before replica).security
  privKey : ∀ replica, (after replica).selfPrivKey = (before replica).selfPrivKey
  columns : ∀ replica, (after replica).messages.columns =
    (before replica).messages.columns ++ rows replica

omit [DecidableEq ι] in
/-- The rows of an author are extended by those among the further ones. -/
theorem Stores.rows_of {before after : ι → Replica} {rows : ι → List MessageColumns}
    (stores : Stores before after rows) (replica author : ι) :
    rowsOf name after replica author =
      rowsOf name before replica author ++
        (rows replica).filter fun row => row.author = name author := by
  rw [rowsOf, stores.columns replica, List.filter_append, rowsOf]

/-- One replica stores rows. Another one may have read meanwhile. -/
theorem stores_update (before middle : ι → Replica)
    (reliable : ∀ replica, (middle replica).Reliable)
    (read : ∀ replica, (middle replica).security = (before replica).security ∧
      (middle replica).selfPrivKey = (before replica).selfPrivKey ∧
      (middle replica).messages = (before replica).messages)
    (replica : ι) (rows : List MessageColumns) :
    Stores before (Function.update middle replica ((middle replica).store rows))
      fun other => if other = replica then rows else [] := by
  let after := Function.update middle replica ((middle replica).store rows)
  have each : ∀ other, (after other).Reliable ∧ (after other).security = (before other).security ∧
      (after other).selfPrivKey = (before other).selfPrivKey ∧
      (after other).messages.columns = (before other).messages.columns ++
        if other = replica then rows else [] := by
    intro other
    obtain ⟨security, privKey, messages⟩ := read other
    by_cases same : other = replica
    · have here : after other = (middle other).store rows := by
        rw [same]
        exact Function.update_self _ _ _
      rw [here, if_pos same, Replica.store_columns, Replica.store_security,
        Replica.store_priv_key, messages]
      exact ⟨(reliable other).store _, security, privKey, rfl⟩
    · have there : after other = middle other := Function.update_of_ne same _ _
      rw [there, if_neg same, List.append_nil, messages]
      exact ⟨reliable other, security, privKey, rfl⟩
  exact ⟨fun other => (each other).1, fun other => (each other).2.1,
    fun other => (each other).2.2.1, fun other => (each other).2.2.2⟩

section Agreed

variable {actions : List (Sync ι)} {state : ι → Replica}
  (agreement : Agreement sodium name start actions state)
include agreement

/-- Every stored row is from the history of its author. -/
theorem Agreement.from_history (replica : ι) (row : MessageColumns)
    (member : row ∈ (state replica).messages.columns) :
    ∃ author, row ∈ history sodium name start (authored actions author) author := by
  obtain ⟨author, own⟩ := agreement.known replica row member
  obtain ⟨count, _, rows⟩ := agreement.held replica author
  have listed : row ∈ rowsOf name state replica author :=
    List.mem_filter.mpr ⟨member, by simpa using own⟩
  exact ⟨author, List.mem_of_mem_take (rows.mem_iff.mp listed)⟩

/-- A replica holds no more of an author than its history. -/
theorem Agreement.held_length (replica author : ι) :
    (rowsOf name state replica author).length ≤ (authored actions author).length ∧
      (rowsOf name state replica author).Perm
        ((history sodium name start (authored actions author) author).take
          (rowsOf name state replica author).length) := by
  obtain ⟨count, bound, rows⟩ := agreement.held replica author
  have length : (rowsOf name state replica author).length = count := by
    rw [rows.length_eq, List.length_take, history_length, Nat.min_eq_left bound]
  rw [length]
  exact ⟨bound, rows⟩

/-- A later state agrees with the later histories if its further rows are by known
authors and complete the prefixes. -/
theorem Agreement.extend {further : List (Sync ι)} {next : ι → Replica}
    {rows : ι → List MessageColumns} (stores : Stores state next rows)
    (named : ∀ replica, ∀ row ∈ rows replica, ∃ author, row.author = name author)
    (held : ∀ replica author, ∃ count, count ≤ (authored further author).length ∧
      (rowsOf name next replica author).Perm
        ((history sodium name start (authored further author) author).take count))
    (own : ∀ author, rowsOf name next author author =
      history sodium name start (authored further author) author) :
    Agreement sodium name start further next := by
  refine ⟨stores.reliable, ?_, ?_, ?_, held, own⟩
  · intro replica
    exact (stores.security replica).trans (agreement.security replica)
  · intro replica
    exact (stores.privKey replica).trans (agreement.privKey replica)
  · intro replica row member
    rw [stores.columns replica] at member
    rcases List.mem_append.mp member with old | new
    · exact agreement.known replica row old
    · exact named replica row new

variable (setting : Setting sodium name start) (moderate : Moderate actions)
include setting moderate

/-- A prefix of every history makes a sound table. -/
theorem Agreement.sound (replica : ι) : Log.Sound sodium (state replica).messages := by
  have each : ∀ row ∈ (state replica).messages.columns, ∃ author,
      ∃ entry ∈ authored actions author, ∃ number,
        row = authoredRow sodium name start author (entry, number) := by
    intro row member
    obtain ⟨author, listed⟩ := agreement.from_history replica row member
    obtain ⟨entry, added, number, same⟩ := mem_history sodium name start _ author row listed
    exact ⟨author, entry, added, number, same⟩
  refine ⟨?_, ?_, ?_, ?_⟩
  · apply distinct_of_authors
    intro text
    by_cases used : ∃ author, name author = text
    · obtain ⟨author, rfl⟩ := used
      obtain ⟨count, _, rows⟩ := agreement.held replica author
      have few := moderate.few author
      have whole := history_distinct sodium name start (authored actions author) author (by omega)
      have own : ((state replica).messages.columns.filter fun row => row.author = name author).Perm
          ((history sodium name start (authored actions author) author).take count) := rows
      rw [(own.map _).nodup_iff]
      exact whole.sublist ((List.take_sublist _ _).map _)
    · have none : (state replica).messages.columns.filter (fun row => row.author = text) = [] := by
        apply List.filter_eq_nil_iff.mpr
        intro row member same
        obtain ⟨author, own⟩ := agreement.known replica row member
        exact used ⟨author, own.symm.trans (by simpa using same)⟩
      rw [none]
      exact List.nodup_nil
  · intro row member
    obtain ⟨author, listed⟩ := agreement.from_history replica row member
    have few := moderate.few author
    have lamport : row.lamport.toInt ∈
        (history sodium name start (authored actions author) author).map (·.lamport.toInt) :=
      List.mem_map_of_mem listed
    rw [history_lamports sodium name start _ author (by omega)] at lamport
    obtain ⟨number, _, same⟩ := List.mem_map.mp lamport
    rw [← same]
    exact Int.natCast_nonneg number
  · intro row member
    obtain ⟨author, entry, added, number, rfl⟩ := each row member
    exact ⟨setting.clean author, moderate.clean author entry added⟩
  · intro row member
    obtain ⟨author, entry, added, number, rfl⟩ := each row member
    exact Option.isSome_iff_exists.mpr ⟨_, sodium.of_to_bytes _⟩

omit moderate in
/-- Every row of a history carries its author's signature, at every replica. -/
theorem Agreement.own_signature (replica author : ι) (row : MessageColumns)
    (member : row ∈ history sodium name start (authored actions author) author) :
    Log.ownSignature sodium (state replica) row = true := by
  obtain ⟨entry, _, number, rfl⟩ := mem_history sodium name start _ author row member
  let message := authoredMessage name author (entry, number)
  let offer : Log.Offer Signature :=
    ⟨name author, sodium.signDetached (Serde.chatMessage message) (start author).selfPrivKey, message⟩
  have same : authoredRow sodium name start author (entry, number) = offer.row sodium := rfl
  rw [same, Log.own_signature_row]
  apply (Replica.verifies_iff sodium _ _ _ _).mpr
  refine ⟨sodium.publicKey (start author).selfPrivKey, ?_, setting.honest _ _⟩
  have registered := setting.registered replica author
  rw [Replica.registeredKey] at registered ⊢
  rw [agreement.security replica]
  exact registered

omit setting in
/-- At its own replica an author's greatest lamport is the number of its messages. -/
theorem Agreement.greatest (author : ι) :
    greatestLamport (state author).messages (name author) = (authored actions author).length := by
  have few := moderate.few author
  have lamports : lamportsOf (state author).messages.columns (name author) =
      (List.range' 1 (authored actions author).length).map Int.ofNat := by
    rw [← history_lamports sodium name start _ author (by omega), ← agreement.own author]
    rfl
  have cases := greatest_lamport_cases (state author).messages (name author)
  rw [lamports] at cases
  rcases cases with ⟨none, zero⟩ | ⟨stored, bound⟩
  · have empty : (authored actions author).length = 0 := by
      simpa using congrArg List.length none
    rw [zero, empty]
    rfl
  · obtain ⟨number, listed, same⟩ := List.mem_map.mp stored
    obtain ⟨low, high⟩ := List.mem_range'_1.mp listed
    have last := bound (Int.ofNat (authored actions author).length)
      (List.mem_map_of_mem (List.mem_range'_1.mpr ⟨by omega, by omega⟩))
    rw [← same] at last ⊢
    have equal : number = (authored actions author).length := by
      have below : (authored actions author).length ≤ number := Int.ofNat_le.mp last
      omega
    rw [equal]
    rfl

omit setting in
/-- The next message of an author is the next row of its history. -/
theorem Agreement.next_row (author : ι) (given originTs : UInt64) (body : Text) :
    Log.addedRow sodium (state author) (name author) ⟨name author, given, originTs, body⟩ =
      authoredRow sodium name start author
        ((originTs, body), (authored actions author).length + 1) := by
  have few := moderate.few author
  have greatest := agreement.greatest moderate author
  have next := next_lamport_exact (state author).messages (name author) (by omega)
  have lamport : Log.assignedLamport (state author) (name author) =
      UInt64.ofNat ((authored actions author).length + 1) := by
    apply UInt64.toNat_inj.mp
    have unsigned := unsigned_value
      (Sql.toInt64 ((state author).messages.nextLamport (some (name author))))
    have small : (UInt64.ofNat ((authored actions author).length + 1)).toNat =
        (authored actions author).length + 1 := by
      apply UInt64.toNat_ofNat_of_lt'
      rw [UInt64.size]
      omega
    rw [next, greatest, if_pos (by omega)] at unsigned
    rw [small, Log.assignedLamport]
    omega
  rw [Log.addedRow, Log.assigned, lamport, agreement.privKey author]
  rfl

omit moderate in
/-- Adding a message extends its author's history and own rows alike. -/
theorem Agreement.add (author : ι) (given originTs : UInt64) (body : Text)
    (further : Moderate (actions ++ [.add author given originTs body])) :
    ∃ next, sync sodium name state (.add author given originTs body) = some next ∧
      Agreement sodium name start (actions ++ [.add author given originTs body]) next := by
  have moderate := further.before
  let added := authoredRow sodium name start author
    ((originTs, body), (authored actions author).length + 1)
  let next := Function.update state author ((state author).store [added])
  have stepped : sync sodium name state (.add author given originTs body) = some next := by
    simp only [sync, Log.add_new_message_run (agreement.reliable author),
      agreement.next_row moderate author given originTs body]
    rfl
  have stores : Stores state next fun other => if other = author then [added] else [] :=
    stores_update state state agreement.reliable (fun _ => ⟨rfl, rfl, rfl⟩) author [added]
  have written : added.author = name author := rfl
  have ownRows : rowsOf name next author author =
      history sodium name start (authored actions author ++ [(originTs, body)]) author := by
    rw [stores.rows_of, if_pos rfl, history_append, agreement.own author]
    congr 1
    exact List.filter_cons_of_pos (by simp [written])
  have otherRows : ∀ replica other, ¬ (replica = author ∧ other = author) →
      rowsOf name next replica other = rowsOf name state replica other := by
    intro replica other different
    rw [stores.rows_of]
    by_cases same : replica = author
    · have names : ¬ added.author = name other := by
        intro equal
        exact different ⟨same, (setting.distinct (written.symm.trans equal)).symm⟩
      rw [if_pos same, List.filter_cons_of_neg (by simpa using names), List.filter_nil,
        List.append_nil]
    · rw [if_neg same, List.filter_nil, List.append_nil]
  refine ⟨next, stepped, agreement.extend stores ?_ ?_ ?_⟩
  · intro replica row member
    by_cases same : replica = author
    · rw [if_pos same] at member
      exact ⟨author, List.mem_singleton.mp member ▸ written⟩
    · rw [if_neg same] at member
      exact absurd member List.not_mem_nil
  · intro replica other
    obtain ⟨bound, rows⟩ := agreement.held_length replica other
    by_cases both : replica = author ∧ other = author
    · obtain ⟨rfl, rfl⟩ := both
      refine ⟨_, le_rfl, List.Perm.of_eq ?_⟩
      rw [authored_add_self, ownRows,
        List.take_of_length_le (Nat.le_of_eq (history_length _ _ _ _ _))]
    · rw [otherRows replica other both]
      refine ⟨(rowsOf name state replica other).length, ?_⟩
      by_cases sameAuthor : other = author
      · -- The prefix held so far is a prefix of the longer history.
        subst sameAuthor
        rw [authored_add_self, history_append, List.length_append,
          List.take_append_of_le_length (by rwa [history_length])]
        exact ⟨by omega, rows⟩
      · rw [authored_add_other actions author other given originTs body sameAuthor]
        exact ⟨bound, rows⟩
  · intro other
    by_cases same : other = author
    · rw [same, authored_add_self, ownRows]
    · rw [authored_add_other actions author other given originTs body same,
        otherRows other other fun both => same both.1]
      exact agreement.own other

omit setting in
/-- What one replica lacks of an author is the other's prefix beyond its own. -/
theorem Agreement.lacking (source puller author : ι) :
    (Log.lacking (state source).messages (state puller).messages (name author)).Perm
      (((history sodium name start (authored actions author) author).take
        (rowsOf name state source author).length).drop
          (rowsOf name state puller author).length) := by
  have few := moderate.few author
  have whole := history_distinct sodium name start (authored actions author) author (by omega)
  have difference := prefix_difference MessageColumns.identity _ whole
    (rowsOf name state source author).length (rowsOf name state puller author).length
  have sourceRows := (agreement.held_length source author).2
  have pullerRows := (agreement.held_length puller author).2
  rw [← difference, Log.lacking_of_author]
  refine (sourceRows.filter _).trans (List.Perm.of_eq (List.filter_congr ?_))
  intro row _
  exact decide_eq_decide.mpr (not_congr (pullerRows.map _).mem_iff)

omit moderate in
/-- Every offer of a pull verifies at the puller. -/
theorem Agreement.all_accepted (source puller : ι) (update : Log.Update Signature)
    (supplies : Log.Supplies sodium update (state source).messages (state puller).messages) :
    Log.acceptedRows sodium (state puller) update =
      (Log.offers update).map (Log.Offer.row sodium) := by
  rw [Log.acceptedRows, Log.accepted]
  congr 1
  apply List.filter_eq_self.mpr
  intro offer member
  obtain ⟨entry, listed, offered⟩ := List.mem_flatMap.mp member
  have key : offer.key = entry.1 := by
    obtain ⟨_, _, rfl⟩ := List.mem_map.mp offered
    rfl
  obtain ⟨lacked, author⟩ := supplies.owned entry listed (offer.row sodium)
    (List.mem_map_of_mem offered)
  obtain ⟨writer, written⟩ := agreement.from_history source _ (List.mem_filter.mp lacked).1
  have signed := agreement.own_signature setting puller writer _ written
  rw [Log.own_signature_row] at signed
  have same : offer.message.author = offer.key := author.trans key.symm
  rw [Log.Offer.verifies, ← same]
  exact signed

/-- A pull completes the puller's prefixes to the longer ones of the two. -/
theorem Agreement.pull (source puller : ι) (apart : source ≠ puller) :
    ∃ next, sync sodium name state (.pull source puller apart) = some next ∧
      Agreement sodium name start (actions ++ [.pull source puller apart]) next ∧
      ∀ author, (rowsOf name next puller author).length =
        max (rowsOf name state source author).length (rowsOf name state puller author).length := by
  have sourceSound := agreement.sound setting moderate source
  have pullerSound := agreement.sound setting moderate puller
  obtain ⟨pulled, searched, completes, sourceAfter, pullerAfter, supplies⟩ :=
    Log.pull_run sodium (agreement.reliable source) (agreement.reliable puller) sourceSound
      pullerSound
  have accepted := agreement.all_accepted setting source puller pulled.update supplies
  rw [accepted] at pullerAfter
  let middle := Function.update state source pulled.source
  let next := Function.update middle puller pulled.puller
  have stepped : sync sodium name state (.pull source puller apart) = some next := by
    simp only [sync, completes]
    rfl
  have read : ∀ replica, (middle replica).Reliable ∧
      (middle replica).security = (state replica).security ∧
      (middle replica).selfPrivKey = (state replica).selfPrivKey ∧
      (middle replica).messages = (state replica).messages := by
    intro replica
    by_cases serves : replica = source
    · have here : middle replica = pulled.source := by
        rw [serves]
        exact Function.update_self _ _ _
      rw [here, sourceAfter, serves]
      exact ⟨agreement.reliable source, rfl, rfl, rfl⟩
    · have there : middle replica = state replica := Function.update_of_ne serves _ _
      rw [there]
      exact ⟨agreement.reliable replica, rfl, rfl, rfl⟩
  have there : middle puller = state puller := Function.update_of_ne apart.symm _ _
  have stores : Stores state next fun other =>
      if other = puller then (Log.offers pulled.update).map (Log.Offer.row sodium) else [] := by
    have stored := stores_update state middle (fun replica => (read replica).1)
      (fun replica => (read replica).2) puller
      ((Log.offers pulled.update).map (Log.Offer.row sodium))
    rwa [there, ← pullerAfter] at stored
  have pulledRows : ∀ author, (rowsOf name next puller author).Perm
      ((history sodium name start (authored actions author) author).take
        (max (rowsOf name state source author).length
          (rowsOf name state puller author).length)) := by
    intro author
    have delivered := (supplies (name author)).trans
      (agreement.lacking moderate source puller author)
    rw [stores.rows_of, if_pos rfl, supplies.of_author, ← prefix_completed]
    exact (agreement.held_length puller author).2.append delivered
  have otherRows : ∀ replica, replica ≠ puller → ∀ author,
      rowsOf name next replica author = rowsOf name state replica author := by
    intro replica different author
    rw [stores.rows_of, if_neg different, List.filter_nil, List.append_nil]
  have limit : ∀ author, max (rowsOf name state source author).length
      (rowsOf name state puller author).length ≤ (authored actions author).length :=
    fun author => Nat.max_le.mpr ⟨(agreement.held_length source author).1,
      (agreement.held_length puller author).1⟩
  refine ⟨next, stepped, agreement.extend stores ?_ ?_ ?_, ?_⟩
  · intro replica row member
    by_cases pulls : replica = puller
    · rw [if_pos pulls] at member
      exact agreement.known source row (supplies.lacked row member).1
    · rw [if_neg pulls] at member
      exact absurd member List.not_mem_nil
  · intro replica author
    rw [authored_pull]
    by_cases pulls : replica = puller
    · rw [pulls]
      exact ⟨_, limit author, pulledRows author⟩
    · rw [otherRows replica pulls]
      exact agreement.held replica author
  · intro author
    rw [authored_pull]
    by_cases pulls : author = puller
    · -- Nobody has more of an author than the author itself, so nothing is delivered.
      have full : (rowsOf name state author author).length = (authored actions author).length := by
        rw [agreement.own author, history_length]
      have nothing : Log.rowsUnder sodium pulled.update (name author) = [] := by
        have delivered := (supplies (name author)).trans
          (agreement.lacking moderate source puller author)
        have short := (agreement.held_length source author).1
        rw [← pulls, List.drop_eq_nil_of_le] at delivered
        · exact delivered.eq_nil
        · rw [List.length_take, full]
          omega
      have kept : rowsOf name next author author = rowsOf name state author author := by
        rw [stores.rows_of, if_pos pulls, supplies.of_author, nothing, List.append_nil]
      rw [kept]
      exact agreement.own author
    · rw [otherRows author pulls]
      exact agreement.own author
  · intro author
    rw [(pulledRows author).length_eq, List.length_take, history_length,
      Nat.min_eq_left (limit author)]

omit setting in
/-- A replica that holds the first messages of an author stores their numbers. -/
theorem Agreement.lamports (replica author : ι) :
    (lamportsOf (state replica).messages.columns (name author)).Perm
      ((List.range' 1 (rowsOf name state replica author).length).map Int.ofNat) := by
  obtain ⟨bound, rows⟩ := agreement.held_length replica author
  have few := moderate.few author
  have whole := history_lamports sodium name start (authored actions author) author (by omega)
  have numbers := rows.map (·.lamport.toInt)
  rw [List.map_take, whole, ← List.map_take, List.take_range'_of_length_ge bound] at numbers
  exact numbers

/-- Its header for the author is absent or one interval from one on. -/
theorem Agreement.header (replica author : ι) :
    (tableHeaders (state replica).messages).find (name author) =
      if (rowsOf name state replica author).length = 0 then none
      else some [⟨1, UInt64.ofNat (rowsOf name state replica author).length⟩] := by
  have bound := (agreement.held_length replica author).1
  have few := moderate.few author
  have sole := (agreement.sound setting moderate replica).sole (name author)
  exact find_consecutive_header _ _ _ sole _ (by omega) (agreement.lamports moderate replica author)

end Agreed

/-- Before any action every history is empty, and so is every table. -/
theorem Agreement.initially (setting : Setting sodium name start) :
    Agreement sodium name start [] start := by
  have none : ∀ replica author, rowsOf name start replica author = [] := by
    intro replica author
    rw [rowsOf, setting.empty replica, List.filter_nil]
  refine ⟨setting.reliable, fun _ => rfl, fun _ => rfl, ?_, ?_, ?_⟩
  · intro replica row member
    rw [setting.empty replica] at member
    exact absurd member List.not_mem_nil
  · intro replica author
    exact ⟨0, Nat.zero_le _, List.Perm.of_eq (none replica author)⟩
  · intro author
    exact none author author

/-- Every run goes through and ends in agreement. -/
theorem agreement_of_run (setting : Setting sodium name start) (actions : List (Sync ι))
    (moderate : Moderate actions) :
    ∃ final, run (sync sodium name) start actions = some final ∧
      Agreement sodium name start actions final := by
  induction actions using List.reverseRecOn with
  | nil => exact ⟨start, rfl, Agreement.initially setting⟩
  | append_singleton before action inductionHypothesis =>
    obtain ⟨state, ran, agreement⟩ := inductionHypothesis moderate.before
    have stepped : ∃ next, sync sodium name state action = some next ∧
        Agreement sodium name start (before ++ [action]) next := by
      cases action with
      | add author given originTs body => exact agreement.add setting author given originTs body moderate
      | pull source puller apart =>
        obtain ⟨next, stepped, agreed, _⟩ :=
          agreement.pull setting moderate.before source puller apart
        exact ⟨next, stepped, agreed⟩
    obtain ⟨next, stepped, agreed⟩ := stepped
    refine ⟨next, ?_, agreed⟩
    rw [run_append, ran]
    simp [run, stepped]

/-- Every run of additions and complete pulls goes through. After it each
replica holds, of each author, the first messages the author added, each once,
numbered from one and signed by it, and offers them as one interval; the author
itself holds all of them, in order. If the last step was a pull, the puller holds
of each author as many as it or the source held. -/
theorem prefix_agreement (setting : Setting sodium name start) (actions : List (Sync ι))
    (moderate : Moderate actions) :
    ∃ final, run (sync sodium name) start actions = some final ∧
      (∀ replica author, ∃ count, count ≤ (authored actions author).length ∧
        (rowsOf name final replica author).Perm
          ((history sodium name start (authored actions author) author).take count) ∧
        (lamportsOf (final replica).messages.columns (name author)).Perm
          ((List.range' 1 count).map Int.ofNat) ∧
        ∃ header, Log.getHeader.run (final replica) = .ok header (final replica) ∧
          header.find (name author) =
            if count = 0 then none else some [⟨1, UInt64.ofNat count⟩]) ∧
      (∀ author, rowsOf name final author author =
        history sodium name start (authored actions author) author) ∧
      ∀ before source puller apart, actions = before ++ [.pull source puller apart] →
        ∃ earlier, run (sync sodium name) start before = some earlier ∧
          ∀ author, (rowsOf name final puller author).length =
            max (rowsOf name earlier source author).length
              (rowsOf name earlier puller author).length := by
  obtain ⟨final, ran, agreement⟩ := agreement_of_run setting actions moderate
  refine ⟨final, ran, ?_, agreement.own, ?_⟩
  · intro replica author
    obtain ⟨bound, rows⟩ := agreement.held_length replica author
    exact ⟨_, bound, rows, agreement.lamports moderate replica author, _,
      Log.get_header_run (agreement.reliable replica),
      agreement.header setting moderate replica author⟩
  · rintro before source puller apart rfl
    obtain ⟨earlier, ranBefore, agreed⟩ := agreement_of_run setting before moderate.before
    obtain ⟨next, stepped, _, lengths⟩ := agreed.pull setting moderate.before source puller apart
    refine ⟨earlier, ranBefore, ?_⟩
    rw [run_append, ranBefore] at ran
    simp only [Option.bind_some, run, stepped, Option.some.injEq] at ran
    rw [← ran]
    exact lengths

/-- The private keys of two authors. -/
def samplePrivKey (author : Bool) : PrivKey := sampleKey (if author then 1 else 2)

/-- Two new replicas, each with the keys of both authors. -/
def sampleReplicas (author : Bool) : Replica :=
  { Replica.fresh false (sampleName author)
      (Sodium.transparent.publicKey (samplePrivKey author)) (samplePrivKey author) [] with
    security := (SecurityTable.empty.insertPublicOnly (sampleName true)
      (Sodium.transparent.publicKey (samplePrivKey true))).insertPublicOnly (sampleName false)
        (Sodium.transparent.publicKey (samplePrivKey false)) }

theorem sample_setting : Setting Sodium.transparent sampleName sampleReplicas := by
  refine ⟨?_, ?_, ?_, by decide, by decide, ?_⟩
  · intro bytes privKey
    exact Sodium.transparent_ideal.verifies_signed bytes privKey
  · intro replica
    rfl
  · intro replica
    rfl
  · intro replica author
    cases author <;> rfl

/-- The authors add messages, the first one with falling times, and pull from
each other. -/
def sampleRun : List (Sync Bool) :=
  [.add true 0 100 (ascii "hi"), .add true 0 50 (ascii "yo"), .pull true false Bool.noConfusion,
    .add false 7 6 (ascii "ho"), .add true 0 51 (ascii "bye"), .pull false true Bool.noConfusion,
    .pull true false Bool.noConfusion]

theorem sample_run_moderate : Moderate sampleRun := by
  refine ⟨?_, ?_⟩ <;> intro author <;> cases author <;> decide

theorem prefix_agreement_sample :
    ∃ final, run (sync Sodium.transparent sampleName) sampleReplicas sampleRun = some final ∧
      (∀ replica author, ∃ count, count ≤ (authored sampleRun author).length ∧
        (rowsOf sampleName final replica author).Perm
          ((history Sodium.transparent sampleName sampleReplicas (authored sampleRun author)
            author).take count) ∧
        (lamportsOf (final replica).messages.columns (sampleName author)).Perm
          ((List.range' 1 count).map Int.ofNat) ∧
        ∃ header, Log.getHeader.run (final replica) = .ok header (final replica) ∧
          header.find (sampleName author) =
            if count = 0 then none else some [⟨1, UInt64.ofNat count⟩]) ∧
      (∀ author, rowsOf sampleName final author author =
        history Sodium.transparent sampleName sampleReplicas (authored sampleRun author) author) ∧
      ∀ before source puller apart, sampleRun = before ++ [.pull source puller apart] →
        ∃ earlier, run (sync Sodium.transparent sampleName) sampleReplicas before = some earlier ∧
          ∀ author, (rowsOf sampleName final puller author).length =
            max (rowsOf sampleName earlier source author).length
              (rowsOf sampleName earlier puller author).length :=
  prefix_agreement sample_setting sampleRun sample_run_moderate

end Replikon.Network
