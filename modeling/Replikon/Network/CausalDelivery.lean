import Replikon.Foundation.Gossip
import Replikon.Network.PrefixAgreement
import Replikon.Refinement.Independence
import Replikon.Refinement.Refusals

/-!
# Messages travel along chains of pulls

Replicas add messages under their own names, pull the log from each other, and
call their key directories in any way; the keys a replica has may be missing,
wrong or changing. Every such run spreads messages as gossip: a replica stores
a message exactly if a chain of pulls, each later than the one before and later
than the message itself, leads from its author to the replica, and every puller
on the way had the right key for the author when it pulled.
-/

namespace Replikon.Network

open Foundation Foundation.Gossip MessagesTable

variable {ι : Type} {Signature : Type} (sodium : Sodium Signature) (layouts : KeysCrdt.Layouts)
  (name : ι → Author) (start : ι → Replica)

/-- What happens in the network. The calls on a key directory are arbitrary. -/
inductive Deed (ι : Type) (Signature : Type) where
  | add (author : ι) (given originTs : UInt64) (body : Text)
  | pull (source puller : ι) (apart : source ≠ puller)
  | directory (replica : ι) (call : Instance.Call Signature) (keys : call.onKeys = true)

/-- What one author adds in a run. -/
def added (author : ι) [DecidableEq ι] (deeds : List (Deed ι Signature)) : List (UInt64 × Text) :=
  deeds.filterMap fun
    | .add other _ originTs body => if other = author then some (originTs, body) else none
    | .pull _ _ _ => none
    | .directory _ _ _ => none

variable [DecidableEq ι]

/-- One step. A call on a key directory may stop; what it leaves goes on. There
is no step when the log stops a replica. -/
def perform (state : ι → Replica) : Deed ι Signature → Option (ι → Replica)
  | .add author given originTs body =>
    match (Log.addNewMessage sodium (name author) ⟨name author, given, originTs, body⟩).run
        (state author) with
    | .ok _ after => some (Function.update state author after)
    | .error _ _ => none
  | .pull source puller _ =>
    match Log.pull sodium (state source) (state puller) with
    | .ok pulled => some (Function.update (Function.update state source pulled.source)
        puller pulled.puller)
    | .error _ => none
  | .directory replica call _ =>
    some (Function.update state replica ((call.program sodium layouts).leaves (state replica)))

/-- What a step means for the spreading of rows: a row is born at its author, or a
puller takes over the rows that carry their author's signature as far as it can
tell with the keys it has. -/
def announced (state : ι → Replica) : Deed ι Signature → Option (Gossip.Event ι MessageColumns)
  | .add author given originTs body =>
    some (.born author
      (Log.addedRow sodium (state author) (name author) ⟨name author, given, originTs, body⟩))
  | .pull source puller _ =>
    some (.taken source puller fun row => Log.ownSignature sodium (state puller) row = true)
  | .directory _ _ _ => none

/-- The events of a run. -/
def announcements (state : ι → Replica) :
    List (Deed ι Signature) → List (Gossip.Event ι MessageColumns)
  | [] => []
  | deed :: rest =>
    (announced sodium name state deed).toList ++
      match perform sodium layouts name state deed with
      | some next => announcements next rest
      | none => []

omit [DecidableEq ι] in
/-- The rows at each replica. -/
def stored (state : ι → Replica) : ι → Set MessageColumns :=
  fun here => {row | row ∈ (state here).messages.columns}

/-- Replicas that start without messages, under distinct names without NUL bytes,
with databases that do not fail. Nothing is assumed of their keys. -/
structure Cast : Prop where
  reliable : ∀ replica, (start replica).Reliable
  empty : ∀ replica, (start replica).messages.columns = []
  distinct : Function.Injective name
  clean : ∀ author, (0 : Byte) ∉ name author

/-- Every replica holds rows of the histories, each at most once, and every author
its own history. -/
structure Spread (entries : ι → List (UInt64 × Text)) (state : ι → Replica) : Prop where
  reliable : ∀ replica, (state replica).Reliable
  privKey : ∀ replica, (state replica).selfPrivKey = (start replica).selfPrivKey
  known : ∀ replica, ∀ row ∈ (state replica).messages.columns,
    ∃ author, row ∈ history sodium name start (entries author) author
  distinct : ∀ replica, (state replica).messages.Distinct
  own : ∀ author, rowsOf name state author author =
    history sodium name start (entries author) author

/-- The entries are free of NUL bytes and no author has `2^63 - 1` of them. -/
structure Limited (entries : ι → List (UInt64 × Text)) : Prop where
  clean : ∀ author, ∀ entry ∈ entries author, (0 : Byte) ∉ entry.2
  few : ∀ author, (entries author).length < 2 ^ 63 - 1

variable {sodium name start} {entries : ι → List (UInt64 × Text)} {state : ι → Replica}

omit [DecidableEq ι] in
/-- A row of a history has its author's name and a number that is not negative. -/
theorem history_row (limited : Limited entries) (author : ι) (row : MessageColumns)
    (member : row ∈ history sodium name start (entries author) author) :
    row.author = name author ∧ 0 ≤ row.lamport.toInt := by
  obtain ⟨entry, _, number, same⟩ := mem_history sodium name start _ author row member
  refine ⟨by rw [same]; rfl, ?_⟩
  have few := limited.few author
  have lamport : row.lamport.toInt ∈
      (history sodium name start (entries author) author).map (·.lamport.toInt) :=
    List.mem_map_of_mem member
  rw [history_lamports sodium name start _ author (by omega)] at lamport
  obtain ⟨number, _, equal⟩ := List.mem_map.mp lamport
  rw [← equal]
  exact Int.natCast_nonneg number

omit [DecidableEq ι] in
/-- Its texts are free of NUL bytes and its signature has a reading. -/
theorem history_reads_back (cast : Cast name start) (limited : Limited entries) (author : ι)
    (row : MessageColumns) (member : row ∈ history sodium name start (entries author) author) :
    ((0 : Byte) ∉ row.author ∧ (0 : Byte) ∉ row.body) ∧
      (sodium.ofBytes row.signature).isSome := by
  obtain ⟨entry, given, number, rfl⟩ := mem_history sodium name start _ author row member
  exact ⟨⟨cast.clean author, limited.clean author entry given⟩,
    Option.isSome_iff_exists.mpr ⟨_, sodium.of_to_bytes _⟩⟩

omit [DecidableEq ι] in
/-- Two rows of histories with the same author and lamport are one. -/
theorem history_agree (cast : Cast name start) (limited : Limited entries) (author writer : ι)
    (row second : MessageColumns) (listed : row ∈ history sodium name start (entries author) author)
    (listedThere : second ∈ history sodium name start (entries writer) writer)
    (same : row.identity = second.identity) : row = second := by
  have named := (history_row limited author row listed).1
  have namedThere := (history_row limited writer second listedThere).1
  have equal : author = writer :=
    cast.distinct (named.symm.trans ((congrArg Prod.fst same).trans namedThere))
  subst equal
  have few := limited.few author
  exact List.inj_on_of_nodup_map
    (history_distinct sodium name start (entries author) author (by omega)) listed listedThere same

omit [DecidableEq ι] in
/-- Where the stored lamports of an author are at most a number that is reached,
the next message gets the number after it. -/
theorem assigned_lamport_numbered (replica : Replica) (author : Author) (count : Nat)
    (few : count + 1 < 2 ^ 63)
    (within : ∀ row ∈ replica.messages.columns, row.author = author →
      ∃ number, number ≤ count ∧ row.lamport.toInt = Int.ofNat number)
    (reached : count = 0 ∨
      ∃ row ∈ replica.messages.columns, row.author = author ∧ row.lamport.toInt = Int.ofNat count) :
    Log.assignedLamport replica author = UInt64.ofNat (count + 1) := by
  have greatest : greatestLamport replica.messages author = count := by
    rcases greatest_lamport_cases replica.messages author with ⟨none, zero⟩ | ⟨stored, bound⟩
    · rcases reached with empty | ⟨row, member, named, last⟩
      · rw [zero, empty]
        rfl
      · have listed := (mem_lamports_of _ _ _).mpr ⟨row, member, named, last⟩
        rw [none] at listed
        exact absurd listed List.not_mem_nil
    · obtain ⟨row, member, named, same⟩ := (mem_lamports_of _ _ _).mp stored
      obtain ⟨number, below, equal⟩ := within row member named
      rcases reached with empty | ⟨other, listed, own, last⟩
      · rw [← same, equal]
        exact congrArg Int.ofNat (by omega)
      · have least := bound _ ((mem_lamports_of _ _ _).mpr ⟨other, listed, own, last⟩)
        rw [← same, equal] at least ⊢
        exact congrArg Int.ofNat (le_antisymm below (Int.ofNat_le.mp least))
  have next := next_lamport_exact replica.messages author (by omega)
  apply UInt64.toNat_inj.mp
  have unsigned := unsigned_value (Sql.toInt64 (replica.messages.nextLamport (some author)))
  have small : (UInt64.ofNat (count + 1)).toNat = count + 1 := by
    apply UInt64.toNat_ofNat_of_lt'
    rw [UInt64.size]
    omega
  rw [next, greatest, if_pos (by omega)] at unsigned
  rw [small, Log.assignedLamport]
  omega

omit [DecidableEq ι] in
/-- Where they are the numbers from 1 on, it gets the next of them. -/
theorem assigned_lamport_consecutive (replica : Replica) (author : Author) (count : Nat)
    (few : count + 1 < 2 ^ 63)
    (lamports : lamportsOf replica.messages.columns author =
      (List.range' 1 count).map Int.ofNat) :
    Log.assignedLamport replica author = UInt64.ofNat (count + 1) := by
  apply assigned_lamport_numbered replica author count few
  · intro row member named
    have listed := (mem_lamports_of _ _ _).mpr ⟨row, member, named, rfl⟩
    rw [lamports] at listed
    obtain ⟨number, ranged, same⟩ := List.mem_map.mp listed
    obtain ⟨_, high⟩ := List.mem_range'_1.mp ranged
    exact ⟨number, by omega, same.symm⟩
  · rcases Nat.eq_zero_or_pos count with empty | positive
    · exact .inl empty
    · refine .inr ((mem_lamports_of _ _ _).mp ?_)
      rw [lamports]
      exact List.mem_map_of_mem (List.mem_range'_1.mpr ⟨positive, by omega⟩)

omit [DecidableEq ι] in
/-- Where an author's rows are its history, its next message is the next row of
the history. -/
theorem next_row_of_own (replica : Replica) (author : ι) (written : List (UInt64 × Text))
    (few : written.length + 1 < 2 ^ 63)
    (own : replica.messages.columns.filter (fun row => row.author = name author) =
      history sodium name start written author)
    (privKey : replica.selfPrivKey = (start author).selfPrivKey) (given originTs : UInt64)
    (body : Text) :
    Log.addedRow sodium replica (name author) ⟨name author, given, originTs, body⟩ =
      authoredRow sodium name start author ((originTs, body), written.length + 1) := by
  have lamports : lamportsOf replica.messages.columns (name author) =
      (List.range' 1 written.length).map Int.ofNat := by
    rw [← history_lamports sodium name start _ author (by omega), ← own]
    rfl
  have lamport := assigned_lamport_consecutive replica (name author) written.length few lamports
  rw [Log.addedRow, Log.assigned, lamport, privKey]
  rfl

section Spreading

variable (spread : Spread sodium name start entries state) (cast : Cast name start)
  (limited : Limited entries)
include spread cast limited

omit [DecidableEq ι] in
/-- Two rows of the network with the same author and lamport are one. -/
theorem Spread.agree (replica other : ι) (row second : MessageColumns)
    (here : row ∈ (state replica).messages.columns)
    (there : second ∈ (state other).messages.columns) (same : row.identity = second.identity) :
    row = second := by
  obtain ⟨author, listed⟩ := spread.known replica row here
  obtain ⟨writer, listedThere⟩ := spread.known other second there
  exact history_agree cast limited author writer row second listed listedThere same

omit [DecidableEq ι] in
/-- The tables are sound. -/
theorem Spread.sound (replica : ι) : Log.Sound sodium (state replica).messages := by
  refine ⟨spread.distinct replica, ?_, ?_, ?_⟩
  · intro row member
    obtain ⟨author, listed⟩ := spread.known replica row member
    exact (history_row limited author row listed).2
  · intro row member
    obtain ⟨author, listed⟩ := spread.known replica row member
    exact (history_reads_back cast limited author row listed).1
  · intro row member
    obtain ⟨author, listed⟩ := spread.known replica row member
    exact (history_reads_back cast limited author row listed).2

omit cast limited in
/-- An author that adds a message extends its history and its own rows. -/
theorem Spread.add (author : ι) (given originTs : UInt64) (body : Text)
    (few : (entries author).length + 1 < 2 ^ 63) :
    ∃ next, perform sodium layouts name state (.add author given originTs body) = some next ∧
      Spread sodium name start
        (Function.update entries author (entries author ++ [(originTs, body)])) next ∧
      ∀ replica row, row ∈ (next replica).messages.columns ↔
        row ∈ (state replica).messages.columns ∨ replica = author ∧
          row = Log.addedRow sodium (state author) (name author)
            ⟨name author, given, originTs, body⟩ := by
  let extended := Function.update entries author (entries author ++ [(originTs, body)])
  let new := Log.addedRow sodium (state author) (name author) ⟨name author, given, originTs, body⟩
  let next := Function.update state author ((state author).store [new])
  have numbered : new = authoredRow sodium name start author
      ((originTs, body), (entries author).length + 1) :=
    next_row_of_own (state author) author (entries author) few (spread.own author)
      (spread.privKey author) given originTs body
  have longer : history sodium name start (extended author) author =
      history sodium name start (entries author) author ++ [new] := by
    rw [numbered]
    simp only [extended, Function.update_self]
    exact history_append sodium name start _ _ author
  have others : ∀ other, other ≠ author →
      Function.update entries author (entries author ++ [(originTs, body)]) other = entries other :=
    fun other different => Function.update_of_ne different _ _
  have stores : Stores state next fun replica => if replica = author then [new] else [] :=
    stores_update state state spread.reliable (fun _ => ⟨rfl, rfl, rfl⟩) author [new]
  have columns : ∀ replica row, row ∈ (next replica).messages.columns ↔
      row ∈ (state replica).messages.columns ∨ replica = author ∧ row = new := by
    intro replica row
    rw [stores.columns replica, List.mem_append]
    by_cases same : replica = author <;> simp [same]
  refine ⟨next, ?_, ⟨stores.reliable, ?_, ?_, ?_, ?_⟩, columns⟩
  · simp only [perform, Log.add_new_message_run (spread.reliable author)]
    rfl
  · intro replica
    exact (stores.privKey replica).trans (spread.privKey replica)
  · intro replica row member
    rcases (columns replica row).mp member with old | ⟨_, rfl⟩
    · obtain ⟨writer, listed⟩ := spread.known replica row old
      refine ⟨writer, ?_⟩
      by_cases same : writer = author
      · subst same
        exact longer ▸ List.mem_append_left _ listed
      · rw [others writer same]
        exact listed
    · exact ⟨author, longer ▸ List.mem_append_right _ (List.mem_singleton_self _)⟩
  · intro replica
    rw [MessagesTable.Distinct, stores.columns replica, List.map_append, List.nodup_append]
    by_cases same : replica = author
    · subst same
      rw [if_pos rfl]
      refine ⟨spread.distinct replica, List.nodup_singleton _, ?_⟩
      -- The new row's number is not one of those in the author's history.
      rintro identity held other added rfl
      have own : identity = new.identity := by simpa using added
      obtain ⟨row, member, same⟩ := List.mem_map.mp held
      have named : row.author = name replica := congrArg Prod.fst (same.trans own)
      have listed : row ∈ history sodium name start (entries replica) replica := by
        rw [← spread.own replica]
        exact List.mem_filter.mpr ⟨member, by simpa using named⟩
      have whole := history_distinct sodium name start (extended replica) replica
        (by simpa [extended] using few)
      rw [longer, List.map_append, List.nodup_append] at whole
      exact whole.2.2 row.identity (List.mem_map_of_mem listed) new.identity (by simp)
        (same.trans own)
    · rw [if_neg same]
      exact ⟨spread.distinct replica, List.nodup_nil, by simp⟩
  · intro writer
    rw [stores.rows_of]
    by_cases same : writer = author
    · subst same
      have named : new.author = name writer := rfl
      rw [if_pos rfl, spread.own writer, List.filter_cons_of_pos (by simp [named]), List.filter_nil]
      exact longer.symm
    · rw [if_neg same, List.filter_nil, List.append_nil, spread.own writer, others writer same]

/-- A puller takes over the rows of the source that carry their author's signature
as far as it can tell. -/
theorem Spread.pull (source puller : ι) (apart : source ≠ puller) :
    ∃ next, perform sodium layouts name state (.pull source puller apart) = some next ∧
      Spread sodium name start entries next ∧
      (∀ replica, (next replica).security = (state replica).security) ∧
      ∀ replica row, row ∈ (next replica).messages.columns ↔
        row ∈ (state replica).messages.columns ∨ replica = puller ∧
          row ∈ (state source).messages.columns ∧
            Log.ownSignature sodium (state puller) row = true := by
  have sourceSound := spread.sound cast limited source
  have pullerSound := spread.sound cast limited puller
  obtain ⟨pulled, searched, completes, sourceAfter, pullerAfter, supplies⟩ :=
    Log.pull_run sodium (spread.reliable source) (spread.reliable puller) sourceSound pullerSound
  let taken := Log.acceptedRows sodium (state puller) pulled.update
  let middle := Function.update state source pulled.source
  let next := Function.update middle puller pulled.puller
  have read : ∀ replica, (middle replica).Reliable ∧
      (middle replica).security = (state replica).security ∧
      (middle replica).selfPrivKey = (state replica).selfPrivKey ∧
      (middle replica).messages = (state replica).messages := by
    intro replica
    by_cases serves : replica = source
    · have here : middle replica = pulled.source := by
        rw [serves]
        exact Function.update_self _ _ _
      rw [here, sourceAfter, serves]
      exact ⟨spread.reliable source, rfl, rfl, rfl⟩
    · have there : middle replica = state replica := Function.update_of_ne serves _ _
      rw [there]
      exact ⟨spread.reliable replica, rfl, rfl, rfl⟩
  have there : middle puller = state puller := Function.update_of_ne apart.symm _ _
  have stores : Stores state next fun replica => if replica = puller then taken else [] := by
    have stored := stores_update state middle (fun replica => (read replica).1)
      (fun replica => (read replica).2) puller taken
    rwa [there, ← pullerAfter] at stored
  have columns : ∀ replica row, row ∈ (next replica).messages.columns ↔
      row ∈ (state replica).messages.columns ∨ replica = puller ∧
        row ∈ (state source).messages.columns ∧
          Log.ownSignature sodium (state puller) row = true := by
    intro replica row
    rw [stores.columns replica, List.mem_append]
    by_cases pulls : replica = puller
    · subst pulls
      rw [if_pos rfl, supplies.mem_accepted_rows]
      constructor
      · rintro (old | ⟨present, _, signed⟩)
        · exact .inl old
        · exact .inr ⟨rfl, present, signed⟩
      · rintro (old | ⟨_, present, signed⟩)
        · exact .inl old
        · by_cases held : row.identity ∈ (state replica).messages.columns.map MessageColumns.identity
          · obtain ⟨other, member, same⟩ := List.mem_map.mp held
            have equal := spread.agree cast limited replica source other row member present same
            exact .inl (equal ▸ member)
          · exact .inr ⟨present, held, signed⟩
    · simp [pulls]
  refine ⟨next, ?_, ⟨stores.reliable, ?_, ?_, ?_, ?_⟩, stores.security, columns⟩
  · simp only [perform, completes]
    rfl
  · intro replica
    exact (stores.privKey replica).trans (spread.privKey replica)
  · intro replica row member
    rcases (columns replica row).mp member with old | ⟨_, present, _⟩
    · exact spread.known replica row old
    · exact spread.known source row present
  · intro replica
    rw [MessagesTable.Distinct, stores.columns replica]
    by_cases pulls : replica = puller
    · subst pulls
      rw [if_pos rfl]
      exact supplies.store_distinct sourceSound.distinct pullerSound.distinct _
        (Log.accepted_rows_sublist sodium (state replica) pulled.update)
    · rw [if_neg pulls, List.append_nil]
      exact spread.distinct replica
  · intro author
    rw [stores.rows_of, spread.own author]
    by_cases pulls : author = puller
    · subst pulls
      -- The puller has its own history and lacks nothing of it.
      have none : taken.filter (fun row => row.author = name author) = [] := by
        apply List.filter_eq_nil_iff.mpr
        intro row accepted owned
        obtain ⟨present, absent, _⟩ := (supplies.mem_accepted_rows _ row).mp accepted
        obtain ⟨writer, listed⟩ := spread.known source row present
        have named := (history_row limited writer row listed).1
        have same : writer = author := cast.distinct (named.symm.trans (of_decide_eq_true owned))
        subst same
        rw [← spread.own writer] at listed
        exact absurd (List.mem_map_of_mem (List.mem_filter.mp listed).1) absent
      rw [if_pos rfl, none, List.append_nil]
    · rw [if_neg pulls, List.filter_nil, List.append_nil]

omit cast limited in
/-- A call on a key directory touches no message. -/
theorem Spread.directory (replica : ι) (call : Instance.Call Signature)
    (keys : call.onKeys = true) :
    ∃ next, perform sodium layouts name state (.directory replica call keys) = some next ∧
      Spread sodium name start entries next ∧
      ∀ other, (next other).messages = (state other).messages := by
  let next := Function.update state replica ((call.program sodium layouts).leaves (state replica))
  have kept := keeps_leaves (Instance.keeps_keys_call sodium layouts call
    keys) (state replica)
  have each : ∀ other, (next other).messages = (state other).messages ∧
      (next other).selfPrivKey = (state other).selfPrivKey ∧ (next other).Reliable := by
    intro other
    by_cases same : other = replica
    · have here : next other = (call.program sodium layouts).leaves (state replica) := by
        rw [same]
        exact Function.update_self _ _ _
      rw [here, same]
      exact ⟨changes_messages kept Instance.directory_writes_no_message, (changes_identity kept).2.2.2,
        changes_reliable kept (spread.reliable replica)⟩
    · have there : next other = state other := Function.update_of_ne same _ _
      rw [there]
      exact ⟨rfl, rfl, spread.reliable other⟩
  refine ⟨next, rfl, ⟨fun other => (each other).2.2, ?_, ?_, ?_, ?_⟩, fun other => (each other).1⟩
  · intro other
    exact (each other).2.1.trans (spread.privKey other)
  · intro other row member
    rw [(each other).1] at member
    exact spread.known other row member
  · intro other
    rw [(each other).1]
    exact spread.distinct other
  · intro author
    rw [rowsOf, (each author).1]
    exact spread.own author

end Spreading

/-- What an author adds in a run begins with what its first step adds. -/
theorem added_cons (author : ι) (deed : Deed ι Signature) (rest : List (Deed ι Signature)) :
    added author (deed :: rest) = added author [deed] ++ added author rest := by
  rw [added, added, added, ← List.filterMap_append]
  rfl

omit [DecidableEq ι] in
/-- Fewer entries are within the limits as well. -/
theorem Limited.of_append {more : ι → List (UInt64 × Text)}
    (limited : Limited fun author => entries author ++ more author) : Limited entries := by
  refine ⟨fun author entry member => limited.clean author entry (List.mem_append_left _ member), ?_⟩
  intro author
  have few := limited.few author
  rw [List.length_append] at few
  omega

/-- A step goes through and spreads the rows as its event says. -/
theorem spread_step (cast : Cast name start) (deed : Deed ι Signature)
    (limited : Limited fun author => entries author ++ added author [deed])
    (spread : Spread sodium name start entries state) :
    ∃ next, perform sodium layouts name state deed = some next ∧
      Spread sodium name start (fun author => entries author ++ added author [deed]) next ∧
      stored next = Gossip.spread (stored state) (announced sodium name state deed).toList := by
  have limitedNow : Limited entries := limited.of_append
  cases deed with
  | add author given originTs body =>
    have grown : (fun other => entries other ++
        added other [(.add author given originTs body : Deed ι Signature)]) =
          Function.update entries author (entries author ++ [(originTs, body)]) := by
      funext other
      by_cases same : other = author
      · subst same
        simp [added]
      · rw [Function.update_of_ne same]
        simp [added, Ne.symm same]
    have few : (entries author).length + 1 < 2 ^ 63 := by
      have bound := limited.few author
      simp only [List.length_append] at bound
      have one : (added author [(.add author given originTs body : Deed ι Signature)]).length = 1 := by
        simp [added]
      omega
    obtain ⟨next, stepped, spreadNext, columns⟩ :=
      spread.add layouts author given originTs body few
    refine ⟨next, stepped, grown ▸ spreadNext, ?_⟩
    funext replica
    ext row
    exact columns replica row
  | pull source puller apart =>
    have same : (fun other => entries other ++
        added other [(.pull source puller apart : Deed ι Signature)]) = entries :=
      funext fun _ => List.append_nil _
    obtain ⟨next, stepped, spreadNext, _, columns⟩ :=
      spread.pull layouts cast limitedNow source puller apart
    refine ⟨next, stepped, by rwa [same], ?_⟩
    funext replica
    ext row
    exact columns replica row
  | directory replica call keys =>
    have same : (fun other => entries other ++
        added other [(.directory replica call keys : Deed ι Signature)]) = entries :=
      funext fun _ => List.append_nil _
    obtain ⟨next, stepped, spreadNext, messages⟩ :=
      spread.directory layouts replica call keys
    refine ⟨next, stepped, by rwa [same], ?_⟩
    funext other
    simp only [stored, messages other]
    rfl

/-- Every run goes through and spreads the rows as its events say. The induction
is on the steps, from any state to which the histories so far have spread. -/
theorem spread_run (cast : Cast name start) (deeds : List (Deed ι Signature))
    (limited : Limited fun author => entries author ++ added author deeds)
    (spread : Spread sodium name start entries state) :
    ∃ final, run (perform sodium layouts name) state deeds = some final ∧
      Spread sodium name start (fun author => entries author ++ added author deeds) final ∧
      stored final =
        Gossip.spread (stored state) (announcements sodium layouts name state deeds) := by
  induction deeds generalizing state entries with
  | nil =>
    have same : (fun author => entries author ++ added author ([] : List (Deed ι Signature))) =
        entries := funext fun _ => List.append_nil _
    exact ⟨state, rfl, by rwa [same], rfl⟩
  | cons deed rest inductionHypothesis =>
    have grown : (fun author => entries author ++ added author (deed :: rest)) =
        fun author => (entries author ++ added author [deed]) ++ added author rest := by
      funext author
      rw [added_cons, List.append_assoc]
    rw [grown] at limited ⊢
    obtain ⟨next, stepped, spreadNext, stores⟩ := spread_step layouts cast deed limited.of_append spread
    obtain ⟨final, ran, spreadFinal, storesFinal⟩ := inductionHypothesis limited spreadNext
    refine ⟨final, ?_, spreadFinal, ?_⟩
    · rw [run, stepped]
      exact ran
    · rw [storesFinal, announcements, Gossip.spread_append, stepped, stores]

omit [DecidableEq ι] in
/-- Before any step nothing has been added, and nothing is held. -/
theorem Spread.initially (cast : Cast name start) :
    Spread sodium name start (fun _ => []) start := by
  refine ⟨cast.reliable, fun _ => rfl, ?_, ?_, ?_⟩
  · intro replica row member
    rw [cast.empty replica] at member
    exact absurd member List.not_mem_nil
  · intro replica
    rw [MessagesTable.Distinct, cast.empty replica]
    exact List.nodup_nil
  · intro author
    rw [rowsOf, cast.empty author]
    rfl

/-- Delivery is exactly causal. In every run of messages added, complete pulls and
calls on key directories with any arguments, nothing stops the log; no replica
stores a message twice; and a replica stores a row exactly if the row was added
at some author and a chain of later pulls leads from there to the replica, at
each of which the puller's keys verified the row. -/
theorem causal_delivery (sodium : Sodium Signature) (layouts : KeysCrdt.Layouts) (name : ι → Author)
    (start : ι → Replica) (cast : Cast name start) (deeds : List (Deed ι Signature))
    (limited : Limited fun author => added author deeds) :
    ∃ final, run (perform sodium layouts name) start deeds = some final ∧
      (∀ replica, (final replica).messages.Distinct) ∧
      ∀ replica row, row ∈ (final replica).messages.columns ↔ ∃ origin chain,
        (.born origin row :: chain).Sublist (announcements sodium layouts name start deeds) ∧
          Leads row origin chain replica := by
  have initially : Spread sodium name start (fun _ => []) start := Spread.initially cast
  obtain ⟨final, ran, spread, stores⟩ := spread_run layouts cast deeds limited initially
  refine ⟨final, ran, spread.distinct, fun replica row => ?_⟩
  have none : stored start = fun _ => (∅ : Set MessageColumns) := by
    funext here
    rw [stored, cast.empty here]
    ext row
    simp
  have held : row ∈ (final replica).messages.columns ↔ row ∈ stored final replica := Iff.rfl
  rw [held, stores, none, mem_spread_empty_iff]

/-- Two new replicas that know no key. -/
def strangers (author : Bool) : Replica :=
  .fresh false (sampleName author) (Sodium.transparent.publicKey (samplePrivKey author))
    (samplePrivKey author) []

theorem strangers_cast : Cast sampleName strangers := by
  refine ⟨?_, ?_, by decide, by decide⟩
  · intro replica
    rfl
  · intro replica
    rfl

/-- A message is pulled before and after the puller has its author's key. -/
def strangersRun : List (Deed Bool Buffer) :=
  [.add true 0 5 (ascii "hi"), .pull true false Bool.false_ne_true.symm,
    .directory false (.setAdmin (sampleName true)
      (Sodium.transparent.publicKey (samplePrivKey true))) rfl,
    .pull true false Bool.false_ne_true.symm]

theorem strangers_run_limited : Limited fun author => added author strangersRun := by
  refine ⟨?_, ?_⟩ <;> intro author <;> cases author <;> decide

theorem causal_delivery_sample :
    ∃ final, run (perform Sodium.transparent KeysCrdt.sampleLayouts sampleName) strangers
        strangersRun = some final ∧
      (∀ replica, (final replica).messages.Distinct) ∧
      ∀ replica row, row ∈ (final replica).messages.columns ↔ ∃ origin chain,
        (.born origin row :: chain).Sublist
            (announcements Sodium.transparent KeysCrdt.sampleLayouts sampleName strangers
              strangersRun) ∧
          Leads row origin chain replica :=
  causal_delivery Sodium.transparent KeysCrdt.sampleLayouts sampleName strangers strangers_cast
    strangersRun strangers_run_limited

end Replikon.Network
