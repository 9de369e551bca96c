import Replikon.Model.Application
import Replikon.Network.Convergence
import Replikon.Refinement.Versions

/-!
# Two peers that meet

Two new instances add messages, register the first as admin, and the first one
adds the key of the second. Whether or not the directory that is then pulled
passes its check, each has the right key of the other, so one log pull in each
direction gives both instances all messages.
-/

namespace Replikon.Application

open Foundation Network KeysCrdt

variable {Signature : Type} {sodium : Sodium Signature}

section Adding

variable {ι : Type} {name : ι → Author} {start : ι → Replica}

/-- Messages added one after another extend the history of their author. -/
theorem add_each_run (author : ι) (messages : List Given) (written : List (UInt64 × Text))
    {replica : Replica} (reliable : replica.Reliable)
    (few : written.length + messages.length < 2 ^ 63)
    (own : replica.messages.columns.filter (fun row => row.author = name author) =
      history sodium name start written author)
    (privKey : replica.selfPrivKey = (start author).selfPrivKey) :
    ∃ rows, (addEach sodium (name author) messages).run replica = .ok () (replica.store rows) ∧
      rows.length = messages.length ∧
      history sodium name start (written ++ messages.map Prod.snd) author =
        history sodium name start written author ++ rows := by
  induction messages generalizing replica written with
  | nil => exact ⟨[], rfl, rfl, by simp⟩
  | cons message rest inductionHypothesis =>
    obtain ⟨lamport, originTs, body⟩ := message
    rw [List.length_cons] at few
    let row := Log.addedRow sodium replica (name author) ⟨name author, lamport, originTs, body⟩
    have next : row = authoredRow sodium name start author ((originTs, body), written.length + 1) :=
      next_row_of_own replica author written (by omega) own privKey lamport originTs body
    have extended : history sodium name start (written ++ [(originTs, body)]) author =
        history sodium name start written author ++ [row] := by
      rw [history_append, next]
    have stored : (replica.store [row]).messages.columns.filter
        (fun row => row.author = name author) =
          history sodium name start (written ++ [(originTs, body)]) author := by
      have named : row.author = name author := rfl
      rw [Replica.store_columns, List.filter_append, own, extended]
      simp [named]
    obtain ⟨rows, ran, length, whole⟩ := inductionHypothesis (written ++ [(originTs, body)])
      (reliable.store [row]) (by rw [List.length_append, List.length_singleton]; omega) stored privKey
    refine ⟨row :: rows, ?_, by rw [List.length_cons, length, List.length_cons], ?_⟩
    · rw [addEach, bind_ok _ (Log.add_new_message_run reliable _ _), ran, replica.store_cons rows]
    · rw [List.map_cons, List.append_cons, whole, extended, List.append_assoc]
      rfl

end Adding

/-- What a peer adds. -/
def Peer.entries (peer : Peer) : List (UInt64 × Text) := peer.messages.map Prod.snd

/-- The rows of a peer: its messages, numbered and signed. -/
def Peer.rows (sodium : Sodium Signature) (peer : Peer) : List MessageColumns :=
  history sodium (fun _ : Unit => peer.author) (fun _ => peer.create sodium) peer.entries ()

/-- The name and the bodies of a peer have no NUL bytes, and its messages can be
numbered. -/
structure Peer.Proper (peer : Peer) : Prop where
  named : (0 : Byte) ∉ peer.author
  clean : ∀ message ∈ peer.messages, (0 : Byte) ∉ message.2.2
  few : peer.messages.length < 2 ^ 63

/-- The local without an initialiser that `setAdmin` starts from is OK, or nothing
asserts its result. -/
def Peer.Settles (peer : Peer) : Prop :=
  peer.ndebug = true ∨ (peer.stack.drop peer.messages.length).head?.getD .ok = .ok

instance (peer : Peer) : Decidable peer.Settles := inferInstanceAs (Decidable (_ ∨ _))

section Rows

variable {peer : Peer} (proper : peer.Proper)
include proper

/-- A peer that has added its messages holds its rows. -/
theorem Peer.Proper.added (sodium : Sodium Signature) :
    (addEach sodium peer.author peer.messages).run (peer.create sodium) =
        .ok () ((peer.create sodium).store (peer.rows sodium)) ∧
      (peer.rows sodium).length = peer.messages.length := by
  obtain ⟨rows, ran, length, whole⟩ := @add_each_run Signature sodium Unit (fun _ => peer.author)
    (fun _ => peer.create sodium) () peer.messages [] (peer.create sodium) rfl
    (by simpa using proper.few) rfl rfl
  have same : peer.rows sodium = rows := whole
  rw [same]
  exact ⟨ran, length⟩

/-- Its rows are its own, in order, and can be read back. -/
theorem Peer.Proper.row (row : MessageColumns) (member : row ∈ peer.rows sodium) :
    row.author = peer.author ∧ (0 : Byte) ∉ row.body ∧ (sodium.ofBytes row.signature).isSome ∧
      0 ≤ row.lamport.toInt := by
  obtain ⟨entry, added, number, same⟩ := mem_history sodium _ _ _ () row member
  obtain ⟨message, given, rfl⟩ := List.mem_map.mp added
  have lamport : row.lamport.toInt ∈ (peer.rows sodium).map (·.lamport.toInt) :=
    List.mem_map_of_mem member
  rw [Peer.rows, history_lamports _ _ _ _ _ (by simpa [Peer.entries] using proper.few)] at lamport
  obtain ⟨place, _, equal⟩ := List.mem_map.mp lamport
  subst same
  refine ⟨rfl, proper.clean message given, ?_, ?_⟩
  · exact Option.isSome_iff_exists.mpr ⟨_, sodium.of_to_bytes _⟩
  · rw [← equal]
    exact Int.natCast_nonneg place

omit proper in
/-- With the right key every row of a peer is found well signed. -/
theorem Peer.signed (honest : Honest sodium) (replica : Replica)
    (registered : replica.registeredKey peer.author = some (sodium.publicKey peer.privKey))
    (row : MessageColumns) (member : row ∈ peer.rows sodium) :
    Log.ownSignature sodium replica row = true :=
  @informed_own_signature Unit Signature sodium (fun _ => peer.author)
    (fun _ => peer.create sodium) (fun _ => replica) (fun _ => peer.entries) honest
    (fun _ _ => registered) () () row member

end Rows

section Directory

variable (layouts : Layouts) {replica : Replica}

/-- The replica after `setAdmin`. -/
def adminSet (replica : Replica) (admin : Author) (pubKey : PubKey) : Replica :=
  { replica with
    security := replica.security.insertAdminPublicOnly admin pubKey
    stack := replica.stack.tail }

/-- `setAdmin` writes its row in any case. It returns if the local it starts from
is OK, or if nothing asserts that. -/
theorem set_admin_run (reliable : replica.Reliable) (admin : Author) (pubKey : PubKey) :
    (setAdmin admin pubKey).run replica =
      if replica.ndebug = true ∨ replica.stack.head?.getD .ok = .ok then
        .ok () (adminSet replica admin pubKey)
      else .error .assertion (adminSet replica admin pubKey) := by
  have inserted := SecurityDao.insert_key_run reliable SecurityTable.insertAdminPublicOnly admin pubKey
  rw [setAdmin, SecurityDao.insertAdminPublicKey, bind_ok _ inserted]
  change (replikonAssert (_ == SqliteResult.ok)).run (adminSet replica admin pubKey) = _
  have kept : (adminSet replica admin pubKey).ndebug = replica.ndebug := rfl
  by_cases initialised : replica.stack.head?.getD .ok = .ok
  · rw [if_pos initialised, if_pos (.inr initialised)]
    exact assert_run _ rfl
  · rw [if_neg initialised]
    by_cases build : replica.ndebug = true
    · rw [if_pos (.inl build)]
      exact assert_unmade_run _ (kept.trans build)
    · rw [if_neg (not_or.mpr ⟨build, initialised⟩)]
      exact assert_stops_run _ rfl (kept.trans (Bool.eq_false_iff.mpr build))

/-- A replica with an admin and a signature hands out its directory. -/
theorem get_update_run (reliable : replica.Reliable) (admin : Author)
    (known : getAdmin.run replica = .ok admin replica) (sign : Signature)
    (signed : persistedSignature replica = some (sodium.toBytes sign)) (version : Version) :
    (KeysCrdt.getUpdate sodium (admin, version)).run replica =
      .ok ⟨admin, persistedVersion replica, replica.security.rows.map SecurityDao.publicKey, sign⟩
        (settled replica) := by
  have settledReliable := settled_reliable reliable
  have read : (KeyValueDao.getBlobValue signKey).run (settled replica) =
      .ok (.ok (persistedSignature (settled replica))) (settled replica) :=
    KeyValueDao.get_value_run settledReliable _ _
  rw [settled_signature, signed] at read
  have signRead : (getPersistedSignature sodium).run (settled replica) =
      .ok sign (settled replica) := by
    rw [getPersistedSignature, bind_ok _ read, bind_ok _ (value_of_run _)]
    simp only [sodium.of_to_bytes]
    rfl
  rw [KeysCrdt.getUpdate, bind_ok _ (SecurityDao.get_all_public_keys_run reliable),
    bind_ok _ (value_of_run _), bind_ok _ known, bind_ok _ (get_persisted_version_run reliable),
    bind_ok _ (assert_run (admin == admin) (by simp)), bind_ok _ signRead]
  rfl

/-- One pull of a signed directory between replicas with the same admin: it is
taken in if it passes its check. -/
theorem keys_pull_run {source puller : Replica} (sourceReliable : source.Reliable)
    (pullerReliable : puller.Reliable) (admin : Author) (clean : (0 : Byte) ∉ admin)
    (sourceAdmin : source.security.adminNames = [admin])
    (pullerAdmin : puller.security.adminNames = [admin])
    (newer : persistedVersion puller < persistedVersion source) (sign : Signature)
    (signed : persistedSignature source = some (sodium.toBytes sign)) :
    let update : KeysCrdt.Update Signature := ⟨admin, persistedVersion source,
      source.security.rows.map SecurityDao.publicKey, sign⟩
    ∃ status, KeysCrdt.pull sodium layouts source puller =
      .ok ⟨some status, settled (settled source),
        if checked sodium layouts (settled puller) update then
          installed sodium (settled (settled puller)) update
        else settled (settled puller)⟩ := by
  intro update
  have whole : cString admin = admin := c_string_whole _ clean
  have offered := KeysCrdt.get_header_run sourceReliable admin sourceAdmin
  have reported := KeysCrdt.get_header_run pullerReliable admin pullerAdmin
  rw [whole] at offered reported
  have asked := get_request_newer reported newer
  have sourceKnown : getAdmin.run (settled source) = .ok admin (settled source) := by
    refine ((finds_admin_iff (settled_reliable sourceReliable) admin).mpr ⟨admin, ?_, whole⟩).2
    rw [settled_security, sourceAdmin]
  have pullerKnown : getAdmin.run (settled puller) = .ok admin (settled puller) := by
    refine ((finds_admin_iff (settled_reliable pullerReliable) admin).mpr ⟨admin, ?_, whole⟩).2
    rw [settled_security, pullerAdmin]
  have answered : (KeysCrdt.getUpdate sodium (admin, persistedVersion source)).run (settled source) =
      .ok update (settled (settled source)) := by
    rw [get_update_run (settled_reliable sourceReliable) admin sourceKnown sign
      (by rw [settled_signature, signed]), settled_version, settled_security]
  have merged := @KeysCrdt.merge_run _ sodium layouts _ (settled_reliable pullerReliable) _
    pullerKnown update
  have newerThan : ¬ update.version ≤ persistedVersion (settled puller) := by
    rw [settled_version]
    exact UInt16.not_le.mpr newer
  rw [if_neg (fun stops => stops.1 rfl), if_neg newerThan] at merged
  rw [KeysCrdt.pull, offered]
  by_cases passes : checked sodium layouts (settled puller) update = true
  · rw [if_pos passes] at merged ⊢
    simp only [asked, answered, merged]
    exact ⟨.merged, rfl⟩
  · rw [if_neg passes] at merged ⊢
    simp only [asked, answered, merged]
    exact ⟨.skipped, rfl⟩

end Directory

section Pulling

variable {source puller : Replica}

/-- If what is lacking at the puller is by one author whose signatures it can check,
a pull stores all of it, in the order of the join. -/
theorem pull_whole (sourceReliable : source.Reliable) (pullerReliable : puller.Reliable)
    (sourceSound : Log.Sound sodium source.messages)
    (pullerSound : Log.Sound sodium puller.messages) (author : Author)
    (sole : ∀ row ∈ source.messages.columns,
      row.identity ∉ puller.messages.columns.map MessageColumns.identity → row.author = author)
    (signed : ∀ row ∈ source.messages.columns, row.author = author →
      Log.ownSignature sodium puller row = true) :
    ∃ pulled searched rows, Log.pull sodium source puller = .ok pulled ∧
      pulled.source = { source with searchIntervals := searched } ∧
      rows.Perm (Log.lacking source.messages puller.messages author) ∧
      pulled.puller = puller.store rows := by
  obtain ⟨pulled, searched, completes, sourceAfter, pullerAfter, supplies⟩ :=
    Log.pull_run sodium sourceReliable pullerReliable sourceSound pullerSound
  refine ⟨pulled, searched, _, completes, sourceAfter, ?_, pullerAfter⟩
  have own : (Log.acceptedRows sodium puller pulled.update).filter
      (fun row => row.author = author) = Log.acceptedRows sodium puller pulled.update := by
    apply List.filter_eq_self.mpr
    intro row member
    obtain ⟨present, lacked, _⟩ := (supplies.mem_accepted_rows puller row).mp member
    simpa using sole row present lacked
  have all : (Log.rowsUnder sodium pulled.update author).filter (Log.ownSignature sodium puller) =
      Log.rowsUnder sodium pulled.update author := by
    apply List.filter_eq_self.mpr
    intro row member
    obtain ⟨present, wanted⟩ := List.mem_filter.mp ((supplies author).mem_iff.mp member)
    simp only [decide_eq_true_eq] at wanted
    exact signed row present wanted.1
  rw [← own, supplies.accepted_of_author, all]
  exact supplies author

end Pulling

section Rows

variable {first second : Peer} (firstProper : first.Proper) (secondProper : second.Proper)

/-- The rows of a peer are all by it. -/
theorem Peer.own_rows (first : Peer) :
    (first.rows sodium).filter (fun row => row.author = first.author) = first.rows sodium := by
  apply List.filter_eq_self.mpr
  intro row member
  obtain ⟨entry, _, number, rfl⟩ := mem_history sodium _ _ _ () row member
  exact decide_eq_true rfl

/-- None of them is by another author. -/
theorem Peer.other_rows (author : Author) (other : author ≠ first.author) :
    (first.rows sodium).filter (fun row => row.author = author) = [] := by
  apply List.filter_eq_nil_iff.mpr
  intro row member
  obtain ⟨entry, _, number, rfl⟩ := mem_history sodium _ _ _ () row member
  intro same
  exact other (of_decide_eq_true same).symm

include firstProper

/-- The rows of a peer are told apart. -/
theorem Peer.Proper.rows_distinct :
    ((first.rows sodium).map MessageColumns.identity).Nodup := by
  apply history_distinct
  simpa [Peer.entries] using firstProper.few

/-- The numbers of a peer's rows count its messages. -/
theorem Peer.Proper.rows_lamports : (first.rows sodium).map (·.lamport.toInt) =
    (List.range' 1 first.messages.length).map Int.ofNat := by
  have few : first.entries.length < 2 ^ 63 := by simpa [Peer.entries] using firstProper.few
  have lamports := history_lamports sodium (fun _ : Unit => first.author)
    (fun _ => first.create sodium) first.entries () few
  rw [show first.entries.length = first.messages.length from List.length_map _] at lamports
  exact lamports

include secondProper

/-- A table of rows of two peers is sound if they are told apart. -/
theorem peers_sound (table : MessagesTable) (distinct : table.Distinct)
    (each : ∀ row ∈ table.columns, row ∈ first.rows sodium ∨ row ∈ second.rows sodium) :
    Log.Sound sodium table := by
  have proper : ∀ row ∈ table.columns, (0 : Byte) ∉ row.author ∧ (0 : Byte) ∉ row.body ∧
      (sodium.ofBytes row.signature).isSome ∧ 0 ≤ row.lamport.toInt := by
    intro row member
    rcases each row member with own | own
    · obtain ⟨named, properties⟩ := firstProper.row row own
      exact ⟨named ▸ firstProper.named, properties⟩
    · obtain ⟨named, properties⟩ := secondProper.row row own
      exact ⟨named ▸ secondProper.named, properties⟩
  refine ⟨distinct, ?_, ?_, ?_⟩
  · intro row member
    exact (proper row member).2.2.2
  · intro row member
    exact ⟨(proper row member).1, (proper row member).2.1⟩
  · intro row member
    exact (proper row member).2.2.1

/-- The rows of both peers are told apart. -/
theorem both_distinct (apart : first.author ≠ second.author) :
    ((first.rows sodium ++ second.rows sodium).map MessageColumns.identity).Nodup := by
  apply distinct_of_authors
  intro author
  rw [List.filter_append]
  by_cases byFirst : author = first.author
  · rw [byFirst, first.own_rows, Peer.other_rows _ apart, List.append_nil]
    exact firstProper.rows_distinct
  · rw [Peer.other_rows author byFirst, List.nil_append]
    exact secondProper.rows_distinct.sublist (List.filter_sublist.map _)

end Rows

/-- What a header offers of an author with so many messages. -/
def offered (count : Nat) : Option (List Interval) :=
  if count = 0 then none else some [⟨1, UInt64.ofNat count⟩]

section Session

variable {alice bob : Peer} (aliceProper : alice.Proper) (bobProper : bob.Proper)
  (apart : alice.author ≠ bob.author)

section Tables

variable {table other : MessagesTable}

omit aliceProper bobProper in
/-- The rows of an author in a table of the rows of both peers. -/
theorem rows_by_author (columns : table.columns.Perm (alice.rows sodium ++ bob.rows sodium))
    (apart : alice.author ≠ bob.author) (author : Author) :
    (table.columns.filter fun row => row.author = author).Perm
      (if author = alice.author then alice.rows sodium
      else if author = bob.author then bob.rows sodium
      else []) := by
  refine (columns.filter _).trans (List.Perm.of_eq ?_)
  rw [List.filter_append]
  by_cases byAlice : author = alice.author
  · rw [if_pos byAlice, byAlice, alice.own_rows, Peer.other_rows _ apart, List.append_nil]
  · rw [if_neg byAlice, Peer.other_rows author byAlice, List.nil_append]
    by_cases byBob : author = bob.author
    · rw [if_pos byBob, byBob, bob.own_rows]
    · rw [if_neg byBob, Peer.other_rows author byBob]

include aliceProper bobProper apart

/-- Such a table is sound. -/
theorem both_sound (columns : table.columns.Perm (alice.rows sodium ++ bob.rows sodium)) :
    Log.Sound sodium table := by
  apply peers_sound aliceProper bobProper
  · rw [MessagesTable.Distinct, (columns.map _).nodup_iff]
    exact both_distinct aliceProper bobProper apart
  · intro row member
    exact List.mem_append.mp (columns.mem_iff.mp member)

/-- It offers the messages of each peer as one interval, and nothing else. -/
theorem both_offered (columns : table.columns.Perm (alice.rows sodium ++ bob.rows sodium))
    (author : Author) :
    (tableHeaders table).find author =
      if author = alice.author then offered alice.messages.length
      else if author = bob.author then offered bob.messages.length
      else none := by
  have sole := (both_sound aliceProper bobProper apart columns).sole author
  have rows := rows_by_author columns apart author
  have header : ∀ count listed, count < 2 ^ 63 →
      (table.columns.filter fun row => row.author = author).Perm listed →
        listed.map (·.lamport.toInt) = (List.range' 1 count).map Int.ofNat →
          (tableHeaders table).find author = offered count := by
    intro count listed fits permuted lamports
    have numbers := permuted.map fun row : MessageColumns => row.lamport.toInt
    rw [lamports] at numbers
    exact find_consecutive_header table author author sole count fits numbers
  by_cases byAlice : author = alice.author
  · rw [if_pos byAlice] at rows ⊢
    exact header _ _ aliceProper.few rows aliceProper.rows_lamports
  · rw [if_neg byAlice] at rows ⊢
    by_cases byBob : author = bob.author
    · rw [if_pos byBob] at rows ⊢
      exact header _ _ bobProper.few rows bobProper.rows_lamports
    · rw [if_neg byBob] at rows ⊢
      exact header 0 _ (by decide) rows rfl

end Tables

section Pulls

variable {source puller : Replica} (sourceReliable : source.Reliable)
  (pullerReliable : puller.Reliable) (honest : Honest sodium)
include aliceProper bobProper apart sourceReliable pullerReliable honest

/-- A peer that has only its own rows and the right key of the other one pulls the
rows of the other one, whether or not the source has rows of the puller. -/
theorem peer_pull (rest : List MessageColumns) (part : rest.Subperm (bob.rows sodium))
    (held : source.messages.columns = alice.rows sodium ++ rest)
    (had : puller.messages.columns = bob.rows sodium)
    (registered : puller.registeredKey alice.author = some (sodium.publicKey alice.privKey)) :
    ∃ pulled searched rows, Log.pull sodium source puller = .ok pulled ∧
      pulled.source = { source with searchIntervals := searched } ∧
      rows.Perm (alice.rows sodium) ∧ pulled.puller = puller.store rows := by
  have both := @both_distinct _ sodium _ _ aliceProper bobProper apart
  have sourceSound : Log.Sound sodium source.messages := by
    apply peers_sound aliceProper bobProper
    · obtain ⟨same, permuted, sublist⟩ := part
      rw [MessagesTable.Distinct, held, ((permuted.append_left _).map _).nodup_iff.symm]
      exact both.sublist ((sublist.append_left _).map _)
    · intro row member
      rw [held] at member
      exact (List.mem_append.mp member).imp_right fun own => part.subset own
  have pullerSound : Log.Sound sodium puller.messages := by
    apply peers_sound aliceProper bobProper
    · rw [MessagesTable.Distinct, had]
      exact bobProper.rows_distinct
    · intro row member
      exact .inr (had ▸ member)
  have lacked : Log.lacking source.messages puller.messages alice.author = alice.rows sodium := by
    rw [Log.lacking, held, had, List.filter_append]
    have own : (alice.rows sodium).filter (fun row => row.author = alice.author ∧
        row.identity ∉ (bob.rows sodium).map MessageColumns.identity) = alice.rows sodium := by
      apply List.filter_eq_self.mpr
      intro row member
      rw [List.map_append] at both
      have absent := (List.nodup_append'.mp both).2.2 (List.mem_map_of_mem member)
      exact decide_eq_true ⟨(aliceProper.row row member).1, absent⟩
    have none : rest.filter (fun row => row.author = alice.author ∧
        row.identity ∉ (bob.rows sodium).map MessageColumns.identity) = [] := by
      apply List.filter_eq_nil_iff.mpr
      intro row member wanted
      have byAlice := (of_decide_eq_true wanted).1
      exact apart (byAlice.symm.trans (bobProper.row row (part.subset member)).1)
    rw [own, none, List.append_nil]
  obtain ⟨pulled, searched, rows, completes, sourceAfter, permuted, pullerAfter⟩ :=
    pull_whole sourceReliable pullerReliable sourceSound pullerSound alice.author
      (by
        intro row member lacks
        rw [held] at member
        rcases List.mem_append.mp member with own | other
        · exact (aliceProper.row row own).1
        · rw [had] at lacks
          exact absurd (List.mem_map_of_mem (part.subset other)) lacks)
      (by
        intro row member byAlice
        rw [held] at member
        rcases List.mem_append.mp member with own | other
        · exact Peer.signed honest puller registered row own
        · exact absurd (byAlice.symm.trans (bobProper.row row (part.subset other)).1) apart)
  rw [lacked] at permuted
  exact ⟨pulled, searched, rows, completes, sourceAfter, permuted, pullerAfter⟩

end Pulls

section Keys

variable (sodium) in
/-- The first peer when the first pull begins. -/
def Peer.directory (layouts : Layouts) (alice bob : Peer) : Replica :=
  let registered := adminSet ((alice.create sodium).store (alice.rows sodium)) alice.author
    (sodium.publicKey alice.privKey)
  keyAdded (sodium.toBytes (addedSignature sodium layouts registered bob.author
    (sodium.publicKey bob.privKey))) registered bob.author (sodium.publicKey bob.privKey)

variable (sodium) in
/-- The second peer then. -/
def Peer.follower (alice bob : Peer) : Replica :=
  adminSet ((bob.create sodium).store (bob.rows sodium)) alice.author
    (sodium.publicKey alice.privKey)

variable (layouts : Layouts)

theorem directory_reliable : (Peer.directory sodium layouts alice bob).Reliable :=
  key_added_reliable _ _ _ rfl

/-- What a table holds in which only an admin was set. -/
theorem insert_admin_rows (author : Author) (pubKey : PubKey) :
    (SecurityTable.empty.insertAdminPublicOnly author pubKey).rows =
      [⟨author, pubKey, none, true⟩] := by
  rw [SecurityTable.insertAdminPublicOnly, SecurityTable.upsert_rows]
  exact if_neg List.not_mem_nil

theorem directory_security : (Peer.directory sodium layouts alice bob).security =
    (SecurityTable.empty.insertAdminPublicOnly alice.author
      (sodium.publicKey alice.privKey)).insertPublicOnly bob.author
        (sodium.publicKey bob.privKey) := key_added_security _ _ _ _

theorem directory_messages : (Peer.directory sodium layouts alice bob).messages.columns =
    alice.rows sodium := by
  rw [Peer.directory, key_added_messages]
  exact Replica.store_columns _ _

theorem follower_messages :
    (Peer.follower sodium alice bob).messages.columns = bob.rows sodium :=
  Replica.store_columns _ _

theorem directory_admin :
    (Peer.directory sodium layouts alice bob).security.adminNames = [alice.author] := by
  rw [directory_security, SecurityTable.insert_public_only_admins, SecurityTable.adminNames,
    insert_admin_rows]
  rfl

theorem follower_admin :
    (Peer.follower sodium alice bob).security.adminNames = [alice.author] := by
  change (SecurityTable.empty.insertAdminPublicOnly _ _).adminNames = _
  rw [SecurityTable.adminNames, insert_admin_rows]
  rfl

include apart

/-- The rows of the directory are the keys of both. -/
theorem directory_rows :
    (Peer.directory sodium layouts alice bob).security.rows =
      [⟨alice.author, sodium.publicKey alice.privKey, none, true⟩,
        ⟨bob.author, sodium.publicKey bob.privKey, none, false⟩] := by
  rw [directory_security, SecurityTable.insertPublicOnly, SecurityTable.upsert_rows,
    insert_admin_rows]
  exact if_neg (by simpa using apart.symm)

include aliceProper bobProper

/-- The directory is pulled. Whether it is taken in or not, nothing stops, and each
peer has the right key of the other one. -/
theorem keys_pulled :
    ∃ pulled, KeysCrdt.pull sodium layouts (Peer.directory sodium layouts alice bob)
        (Peer.follower sodium alice bob) = .ok pulled ∧
      pulled.source.Reliable ∧ pulled.puller.Reliable ∧
      pulled.source.messages.columns = alice.rows sodium ∧
      pulled.puller.messages.columns = bob.rows sodium ∧
      pulled.source.registeredKey bob.author = some (sodium.publicKey bob.privKey) ∧
      pulled.puller.registeredKey alice.author = some (sodium.publicKey alice.privKey) := by
  have newer : persistedVersion (Peer.follower sodium alice bob) <
      persistedVersion (Peer.directory sodium layouts alice bob) := by
    rw [Peer.directory, key_added_version]
    exact (by decide : (0 : UInt16) < 0 + 1)
  have reliable : (Peer.follower sodium alice bob).Reliable := rfl
  obtain ⟨status, pulled⟩ := keys_pull_run layouts (directory_reliable layouts) reliable
    alice.author aliceProper.named (directory_admin layouts) follower_admin newer _
    (key_added_signature _ _ _ _)
  have settledTwice := settled_reliable (settled_reliable reliable)
  refine ⟨_, pulled, ?_, ?_, ?_, ?_, ?_, ?_⟩
  · exact settled_reliable (settled_reliable (directory_reliable layouts))
  · dsimp only
    split
    · exact settledTwice
    · exact settledTwice
  · dsimp only
    rw [settled_messages, settled_messages, directory_messages]
  · have kept : (settled (settled (Peer.follower sodium alice bob))).messages.columns =
        bob.rows sodium := by
      rw [settled_messages, settled_messages, follower_messages]
    dsimp only
    split
    · exact kept
    · exact kept
  · dsimp only
    rw [Replica.registeredKey, settled_security, settled_security, directory_security,
      SecurityTable.find_insert_public_only, if_pos rfl]
    rfl
  · have known : (settled (settled (Peer.follower sodium alice bob))).security =
        SecurityTable.empty.insertAdminPublicOnly alice.author
          (sodium.publicKey alice.privKey) := by
      rw [settled_security, settled_security]
      rfl
    have whole : cString alice.author = alice.author := c_string_whole _ aliceProper.named
    have wholeBob : cString bob.author = bob.author := c_string_whole _ bobProper.named
    dsimp only
    split
    · -- The update has the same key of the admin.
      rw [Replica.registeredKey, installed]
      simp only [directory_rows apart layouts, List.map_cons, List.map_nil, List.foldl_cons,
        List.foldl_nil, SecurityDao.publicKey, whole, wholeBob,
        SecurityTable.find_insert_public_only, if_neg apart, if_true, Option.map_some]
    · rw [Replica.registeredKey, known, SecurityTable.find_insert_admin_public_only, if_pos rfl]
      rfl

end Keys

/-- `setAdmin` in the session. -/
theorem Peer.Proper.set_admin_run {peer : Peer} (proper : peer.Proper)
    (sodium : Sodium Signature) (admin : Author) (pubKey : PubKey) :
    (setAdmin admin pubKey).run ((peer.create sodium).store (peer.rows sodium)) =
      if peer.Settles then
        .ok () (adminSet ((peer.create sodium).store (peer.rows sodium)) admin pubKey)
      else
        .error .assertion
          (adminSet ((peer.create sodium).store (peer.rows sodium)) admin pubKey) := by
  have reliable : ((peer.create sodium).store (peer.rows sodium)).Reliable := rfl
  rw [Application.set_admin_run reliable, Replica.store_stack, (proper.added sodium).2]
  rfl

/-- A part of the session that returns. -/
theorem on_returned {α : Type} {program : Program α} {replica after : Replica} {value : α}
    (returned : program.run replica = .ok value after) :
    on program replica = .ok (value, after) := by
  rw [on, returned]

/-- A part of the session that stops. -/
theorem on_stopped {α : Type} {program : Program α} {replica after : Replica} {reason : Stop}
    (stopped : program.run replica = .error reason after) : on program replica = .error reason := by
  rw [on, stopped]

/-- Two new peers with different names meet. If the locals that `setAdmin` starts
from are OK, or nothing asserts their results, nothing stops: both end with the
messages of both, each once, their own first and in order, and with the same
header, one interval for each peer that added messages. Otherwise the session
fails an assertion. -/
theorem two_peers_meet (sodium : Sodium Signature) (layouts : Layouts) (honest : Honest sodium)
    (alice bob : Peer) (aliceProper : alice.Proper) (bobProper : bob.Proper)
    (apart : alice.author ≠ bob.author) :
    (alice.Settles ∧ bob.Settles →
      ∃ synced fromAlice fromBob, syncBetweenTwoPeers sodium layouts alice bob = .ok synced ∧
        fromAlice.Perm (alice.rows sodium) ∧ fromBob.Perm (bob.rows sodium) ∧
        synced.instance1.messages.columns = alice.rows sodium ++ fromBob ∧
        synced.instance2.messages.columns = bob.rows sodium ++ fromAlice ∧
        synced.header2 = synced.header1 ∧
        ∀ author, synced.header1.find author =
          if author = alice.author then offered alice.messages.length
          else if author = bob.author then offered bob.messages.length
          else none) ∧
      (¬ (alice.Settles ∧ bob.Settles) →
        syncBetweenTwoPeers sodium layouts alice bob = .error .assertion) := by
  have addedFirst := on_returned (aliceProper.added sodium).1
  have addedSecond := on_returned (bobProper.added sodium).1
  have firstSet := aliceProper.set_admin_run sodium alice.author (sodium.publicKey alice.privKey)
  have secondSet := bobProper.set_admin_run sodium alice.author (sodium.publicKey alice.privKey)
  have firstKey : ((alice.create sodium).store (alice.rows sodium)).selfPubKey =
      sodium.publicKey alice.privKey := rfl
  have firstKeyStays : (adminSet ((alice.create sodium).store (alice.rows sodium)) alice.author
      (sodium.publicKey alice.privKey)).selfPubKey = sodium.publicKey alice.privKey := rfl
  unfold syncBetweenTwoPeers
  simp only [addedFirst, addedSecond, Bind.bind, Except.bind, firstKey]
  constructor
  · rintro ⟨aliceSettles, bobSettles⟩
    rw [if_pos aliceSettles] at firstSet
    rw [if_pos bobSettles] at secondSet
    have secondKey : (adminSet ((bob.create sodium).store (bob.rows sodium)) alice.author
        (sodium.publicKey alice.privKey)).selfPubKey = sodium.publicKey bob.privKey := rfl
    have registered : ((adminSet ((alice.create sodium).store (alice.rows sodium)) alice.author
        (sodium.publicKey alice.privKey))).Reliable := rfl
    have keyAdded : (addKey sodium layouts bob.author (sodium.publicKey bob.privKey)).run
        (adminSet ((alice.create sodium).store (alice.rows sodium)) alice.author
          (sodium.publicKey alice.privKey)) = .ok () (Peer.directory sodium layouts alice bob) :=
      @add_key_run Signature sodium layouts _ registered _ _
    obtain ⟨keys, pulledKeys, sourceReliable, pullerReliable, sourceRows, pullerRows, knowsBob,
      knowsAlice⟩ := @keys_pulled Signature sodium alice bob aliceProper bobProper apart layouts
    obtain ⟨there, searchedThere, fromAlice, pulledThere, sourceThere, aliceRows, pullerThere⟩ :=
      peer_pull aliceProper bobProper apart sourceReliable pullerReliable honest []
        List.nil_subperm (by rw [sourceRows, List.append_nil]) pullerRows knowsAlice
    have bothAtBob : there.puller.messages.columns = bob.rows sodium ++ fromAlice := by
      rw [pullerThere, Replica.store_columns, pullerRows]
    have reliableThere : there.source.Reliable ∧ there.puller.Reliable := by
      rw [sourceThere, pullerThere]
      exact ⟨sourceReliable, pullerReliable.store _⟩
    obtain ⟨back, searchedBack, fromBob, pulledBack, sourceBack, bobRows, pullerBack⟩ :=
      peer_pull bobProper aliceProper apart.symm reliableThere.2 reliableThere.1 honest
        fromAlice aliceRows.subperm bothAtBob (by rw [sourceThere, sourceRows])
        (by rw [sourceThere]; exact knowsBob)
    have bothAtAlice : back.puller.messages.columns = alice.rows sodium ++ fromBob := by
      rw [pullerBack, Replica.store_columns, sourceThere, sourceRows]
    have stillAtBob : back.source.messages.columns = bob.rows sodium ++ fromAlice := by
      rw [sourceBack, bothAtBob]
    have reliableBack : back.source.Reliable ∧ back.puller.Reliable := by
      rw [sourceBack, pullerBack]
      exact ⟨reliableThere.2, reliableThere.1.store _⟩
    have firstHeader := on_returned (Log.get_header_run reliableBack.2)
    have secondHeader := on_returned (Log.get_header_run reliableBack.1)
    simp only [on_returned firstSet, firstKeyStays, on_returned secondSet]
    simp only [secondKey, on_returned keyAdded]
    rw [show adminSet ((bob.create sodium).store (bob.rows sodium)) alice.author
      (sodium.publicKey alice.privKey) = Peer.follower sodium alice bob from rfl]
    simp only [pulledKeys, pulledThere, pulledBack, firstHeader, secondHeader]
    refine ⟨_, fromAlice, fromBob, rfl, aliceRows, bobRows, bothAtAlice, stillAtBob, ?_, ?_⟩
    · dsimp only
      apply table_headers_congr
      rw [bothAtAlice, stillAtBob]
      exact (aliceRows.append_left _).trans
        (List.perm_append_comm.trans (bobRows.symm.append_left _))
    · apply both_offered aliceProper bobProper apart
      rw [bothAtAlice]
      exact bobRows.append_left _
  · intro unsettled
    by_cases aliceSettles : alice.Settles
    · have bobFails : ¬ bob.Settles := fun bobSettles => unsettled ⟨aliceSettles, bobSettles⟩
      rw [if_pos aliceSettles] at firstSet
      rw [if_neg bobFails] at secondSet
      simp only [on_returned firstSet, firstKeyStays, on_stopped secondSet]
    · rw [if_neg aliceSettles] at firstSet
      simp only [on_stopped firstSet]

end Session

/-- The first peer of the test. -/
def sampleAlice : Peer where
  author := ascii "alice"
  privKey := sampleKey 1
  ndebug := false
  stack := []
  messages := [(0, 100, ascii "Hello from Alice"), (0, 50, ascii "Hello from Ivan1"),
    (0, 51, ascii "Hello from Ivan2")]

/-- The second one. -/
def sampleBob : Peer where
  author := ascii "bob"
  privKey := sampleKey 2
  ndebug := false
  stack := []
  messages := [(0, 101, ascii "Hi from Bob"), (0, 103, ascii "Hi from Bob"),
    (0, 105, ascii "Hi from Bob")]

/-- The peers of the test meet, and each log counts three messages of both. -/
theorem two_peers_meet_sample :
    ∃ synced, syncBetweenTwoPeers Sodium.transparent KeysCrdt.sampleLayouts sampleAlice sampleBob =
        .ok synced ∧
      synced.header2 = synced.header1 ∧
      synced.header1.find sampleAlice.author = some [⟨1, 3⟩] ∧
      synced.header1.find sampleBob.author = some [⟨1, 3⟩] := by
  obtain ⟨synced, _, _, ran, _, _, _, _, same, header⟩ := (two_peers_meet Sodium.transparent
    KeysCrdt.sampleLayouts sample_setting.honest sampleAlice sampleBob
    ⟨by decide, by decide, by decide⟩ ⟨by decide, by decide, by decide⟩ (by decide)).1
    ⟨by decide, by decide⟩
  refine ⟨synced, ran, same, ?_, ?_⟩
  · rw [header, if_pos rfl]
    rfl
  · rw [header, if_neg (by decide), if_pos rfl]
    rfl

end Replikon.Application
