import Replikon.Foundation.Prefixes
import Replikon.Refinement.Independence
import Replikon.Refinement.MergeLaws
import Replikon.Refinement.Refusals
import Replikon.Refinement.Undisturbed

/-!
# Pulls that are interrupted

A pull takes four steps in two processes, and either process may be killed at any
of its SQLite calls. What has been stored until then is the beginning of what the
pull would have stored. It is a part of what the puller wants of each author, and
a later pull brings the rest: it is enough to try again.
-/

namespace Replikon

open Foundation

/-- The replica in a new process, as the constructor of an instance leaves it, with
what becomes of its calls there. -/
def Replica.revived (replica : Replica) (script : List Outcome) (stack : List SqliteResult) :
    Replica :=
  { replica.facing script stack with searchIntervals := [] }

/-- Reading changes neither the messages nor the keys. -/
structure Reads (before after : Replica) : Prop where
  messages : after.messages = before.messages
  security : after.security = before.security

theorem keeps_reads {α : Type} {program : Program α}
    (keeps : Keeps (Changes Write.OfIntervals) program) : Keeps Reads program := by
  refine keeps.mono fun before after changes => ⟨?_, ?_⟩
  · refine changes_messages changes fun write intervals => ?_
    cases write <;> first | exact intervals.elim | exact id
  · exact (changes_directory changes fun write => .inr).1

/-- What a program that reads leaves when it returns. -/
theorem Reads.returned {α : Type} {program : Program α} (keeps : Keeps Reads program)
    {replica after : Replica} {value : α} (ended : program.run replica = .ok value after) :
    Reads replica after := by
  have kept := keeps replica
  unfold Guarantees at kept
  rwa [ended] at kept

/-- What it leaves when it stops. -/
theorem Reads.stopped {α : Type} {program : Program α} (keeps : Keeps Reads program)
    {replica after : Replica} {reason : Stop} (ended : program.run replica = .error reason after) :
    Reads replica after := by
  have kept := keeps replica
  unfold Guarantees at kept
  rwa [ended] at kept

namespace Log

variable {Signature : Type} (sodium : Sodium Signature)

/-- A pull as far as it gets, with what it leaves of the source and the puller. -/
def attempt (source puller : Replica) : Replica × Replica :=
  match getHeader.run source with
  | .error _ source => (source, puller)
  | .ok header source =>
    match (getRequest header).run puller with
    | .error _ puller => (source, puller)
    | .ok request puller =>
      match (getUpdate sodium request).run source with
      | .error _ source => (source, puller)
      | .ok update source => (source, (merge sodium update).leaves puller)

/-- Another attempt in new processes. Meanwhile the source may have stored more. -/
structure Resumption where
  more : List MessageColumns
  sourceScript : List Outcome
  sourceStack : List SqliteResult
  pullerScript : List Outcome
  pullerStack : List SqliteResult

/-- None of the calls fails; each of the processes may be killed at any of them. -/
def Resumption.Unfailing (resumption : Resumption) : Prop :=
  (∀ outcome ∈ resumption.sourceScript, outcome ≠ .fails) ∧
    ∀ outcome ∈ resumption.pullerScript, outcome ≠ .fails

/-- The source and the puller after another attempt. -/
def resume (replicas : Replica × Replica) (resumption : Resumption) : Replica × Replica :=
  attempt sodium
    ((replicas.1.holding resumption.more).revived resumption.sourceScript resumption.sourceStack)
    (replicas.2.revived resumption.pullerScript resumption.pullerStack)

/-- Rows of the author that the puller lacks and will accept, in the order of the
source. -/
def wanted (source : MessagesTable) (puller : Replica) (author : Text) : List MessageColumns :=
  (lacking source puller.messages author).filter (ownSignature sodium puller)

/-- The keys decide which rows carry their author's signature. -/
theorem own_signature_congr {left right : Replica} (same : left.security = right.security) :
    ownSignature sodium left = ownSignature sodium right := by
  funext row
  rw [ownSignature, ownSignature, Replica.verifies_congr sodium same]

/-- While no call fails, a merge stores the beginning of what it accepts, wherever
the process is killed. -/
theorem merge_begins (replica : Replica) (update : Update Signature)
    (unfailing : replica.Unfailing) :
    ∃ rows, rows <+: acceptedRows sodium replica update ∧
      ((merge sodium update).leaves replica).messages.columns = replica.messages.columns ++ rows ∧
      ((merge sodium update).leaves replica).security = replica.security := by
  have guaranteed := merge_spent sodium replica update
  have left : ∃ rows, Spent (replica.holding rows) ((merge sodium update).leaves replica) ∧
      rows <+: acceptedRows sodium replica update := by
    unfold Guarantees at guaranteed
    unfold Program.leaves
    cases ended : (merge sodium update).run replica with
    | ok status after =>
      rw [ended] at guaranteed
      obtain ⟨rows, spent, _, whole⟩ := guaranteed
      exact ⟨rows, spent, whole unfailing ▸ List.prefix_rfl⟩
    | error reason after =>
      rw [ended] at guaranteed
      obtain ⟨rows, spent, _, starts⟩ := guaranteed
      exact ⟨rows, spent, starts unfailing⟩
  obtain ⟨rows, spent, starts⟩ := left
  rw [spent.same]
  exact ⟨rows, starts, MessagesTable.insert_all_columns _ _, rfl⟩

/-- The keys decide what is accepted. -/
theorem accepted_rows_congr {left right : Replica} (same : left.security = right.security)
    (update : Update Signature) :
    acceptedRows sodium left update = acceptedRows sodium right update := by
  have verifies : Offer.verifies sodium left = Offer.verifies sodium right := by
    funext offer
    rw [Offer.verifies, Offer.verifies, Replica.verifies_congr sodium same]
  rw [acceptedRows, acceptedRows, accepted, accepted, verifies]

section Attempts

variable {sodium} {source puller : Replica}

/-- An attempt leaves the messages of the source and the keys of the puller, and the
puller stores the beginning of what it accepts of an update that supplies what it
lacks. -/
theorem attempt_takes (sourceUnfailing : source.Unfailing) (pullerUnfailing : puller.Unfailing)
    (sourceSound : Sound sodium source.messages) (pullerSound : Sound sodium puller.messages) :
    (attempt sodium source puller).1.messages = source.messages ∧
      (attempt sodium source puller).2.security = puller.security ∧
      ∃ update rows, Supplies sodium update source.messages puller.messages ∧
        rows <+: acceptedRows sodium puller update ∧
        (attempt sodium source puller).2.messages.columns = puller.messages.columns ++ rows := by
  obtain ⟨pulled, searched, completes, _, _, supplies⟩ :=
    pull_run sodium source.calm_reliable puller.calm_reliable sourceSound pullerSound
  have headerReads : Keeps Reads getHeader := keeps_reads keeps_get_header
  have requestReads : ∀ header, Keeps Reads (getRequest header) :=
    fun header => keeps_reads (keeps_get_request header)
  have updateReads : ∀ request, Keeps Reads (getUpdate sodium request) :=
    fun request => keeps_reads (keeps_get_update sodium request)
  cases askedHeader : getHeader.run source with
  | error reason first =>
    have left : attempt sodium source puller = (first, puller) := by
      simp only [attempt, askedHeader]
    have read := Reads.stopped headerReads askedHeader
    rw [left]
    exact ⟨read.messages, rfl, pulled.update, [], supplies, List.nil_prefix,
      (List.append_nil _).symm⟩
  | ok header first =>
    have read := Reads.returned headerReads askedHeader
    obtain ⟨_, calmHeader, firstUnfailing, rfl⟩ :=
      reproduces_get_header source source.calm ⟨sourceUnfailing, rfl⟩ header first askedHeader
    cases askedRequest : (getRequest header).run puller with
    | error reason second =>
      have left : attempt sodium source puller = (first, second) := by
        simp only [attempt, askedHeader, askedRequest]
      have readRequest := Reads.stopped (requestReads header) askedRequest
      rw [left, readRequest.messages]
      exact ⟨read.messages, readRequest.security, pulled.update, [], supplies, List.nil_prefix,
        (List.append_nil _).symm⟩
    | ok request second =>
      have readRequest := Reads.returned (requestReads header) askedRequest
      obtain ⟨_, calmRequest, secondUnfailing, rfl⟩ :=
        reproduces_get_request header puller puller.calm ⟨pullerUnfailing, rfl⟩ request second
          askedRequest
      cases askedUpdate : (getUpdate sodium request).run first with
      | error reason third =>
        have left : attempt sodium source puller = (third, second) := by
          simp only [attempt, askedHeader, askedRequest, askedUpdate]
        have readUpdate := Reads.stopped (updateReads request) askedUpdate
        rw [left, readRequest.messages]
        exact ⟨readUpdate.messages.trans read.messages, readRequest.security, pulled.update, [],
          supplies, List.nil_prefix, (List.append_nil _).symm⟩
      | ok update third =>
        have left : attempt sodium source puller =
            (third, (merge sodium update).leaves second) := by
          simp only [attempt, askedHeader, askedRequest, askedUpdate]
        have readUpdate := Reads.returned (updateReads request) askedUpdate
        obtain ⟨_, calmUpdate, _, rfl⟩ :=
          reproduces_get_update sodium request first first.calm ⟨firstUnfailing, rfl⟩ update third
            askedUpdate
        have same : pulled.update = update := by
          rw [pull, calmHeader] at completes
          simp only [calmRequest, calmUpdate, merge_run second.calm_reliable] at completes
          cases completes
          rfl
        obtain ⟨rows, starts, columns, security⟩ :=
          merge_begins sodium second update secondUnfailing
        rw [accepted_rows_congr sodium readRequest.security] at starts
        rw [readRequest.messages] at columns
        rw [left]
        exact ⟨readUpdate.messages.trans read.messages, security.trans readRequest.security,
          update, rows, same ▸ supplies, starts, columns⟩

end Attempts

/-- How far the attempts have come: the puller has, after its old rows of an author,
some of those it wants. -/
structure Progress (puller : Replica) (replicas : Replica × Replica) : Prop where
  sound : Sound sodium replicas.2.messages
  security : replicas.2.security = puller.security
  held : ∀ author, ∃ taken, taken.Subperm (wanted sodium replicas.1.messages puller author) ∧
    replicas.2.messages.columns.filter (fun row => row.author = author) =
      puller.messages.columns.filter (fun row => row.author = author) ++ taken

section Progress

variable {sodium} {source puller : Replica} {replicas : Replica × Replica}

/-- The wanted rows are told apart. -/
theorem wanted_distinct (distinct : source.messages.Distinct) (author : Text) :
    ((wanted sodium source.messages puller author).map MessageColumns.identity).Nodup :=
  distinct.sublist ((List.filter_sublist.trans List.filter_sublist).map _)

/-- A puller that has taken some of the wanted rows wants the others. -/
theorem wanted_remaining {after : Replica} (distinct : source.messages.Distinct)
    (security : after.security = puller.security) (author : Text) {taken : List MessageColumns}
    (inside : taken.Subperm (wanted sodium source.messages puller author))
    (held : after.messages.columns.filter (fun row => row.author = author) =
      puller.messages.columns.filter (fun row => row.author = author) ++ taken) :
    (taken ++ wanted sodium source.messages after author).Perm
      (wanted sodium source.messages puller author) := by
  have others : wanted sodium source.messages after author =
      (wanted sodium source.messages puller author).filter fun row =>
        row.identity ∉ taken.map MessageColumns.identity := by
    rw [wanted, wanted, own_signature_congr sodium security, lacking_of_author, lacking_of_author,
      held]
    generalize source.messages.columns.filter _ = rows
    simp only [List.filter_filter]
    refine List.filter_congr fun row _ => ?_
    rw [Bool.eq_iff_iff]
    simp only [List.map_append, List.mem_append, not_or, Bool.and_eq_true, decide_eq_true_eq]
    constructor
    · rintro ⟨signed, old, new⟩
      exact ⟨new, signed, old⟩
    · rintro ⟨new, signed, old⟩
      exact ⟨signed, old, new⟩
  rw [others]
  exact part_completed MessageColumns.identity (wanted_distinct distinct author) inside
    fun _ _ => decide_eq_true_iff

/-- What an update supplies and the keys accept is wanted. -/
theorem Supplies.accepted_wanted {update : Update Signature} {source : MessagesTable}
    (supplies : Supplies sodium update source puller.messages) (author : Text) :
    ((acceptedRows sodium puller update).filter fun row => row.author = author).Perm
      (wanted sodium source puller author) := by
  rw [supplies.accepted_of_author]
  exact (supplies author).filter _

/-- A table that stores some of the offered rows stays sound. -/
theorem Supplies.sound_begun {update : Update Signature} {source puller after : MessagesTable}
    (supplies : Supplies sodium update source puller) (sourceSound : Sound sodium source)
    (pullerSound : Sound sodium puller) {rows : List MessageColumns}
    (part : rows.Sublist ((offers update).map (Offer.row sodium)))
    (columns : after.columns = puller.columns ++ rows) : Sound sodium after := by
  have each : ∀ row ∈ after.columns, row ∈ puller.columns ∨ row ∈ source.columns := by
    intro row member
    rw [columns] at member
    refine (List.mem_append.mp member).imp id fun added => ?_
    exact (supplies.lacked row (part.subset added)).1
  refine ⟨?_, ?_, ?_, ?_⟩
  · rw [MessagesTable.Distinct, columns]
    exact supplies.store_distinct sourceSound.distinct pullerSound.distinct rows part
  · intro row member
    exact (each row member).elim (pullerSound.nonnegative row) (sourceSound.nonnegative row)
  · intro row member
    exact (each row member).elim (pullerSound.clean row) (sourceSound.clean row)
  · intro row member
    exact (each row member).elim (pullerSound.readable row) (sourceSound.readable row)

/-- What the source stores in addition is wanted behind what was wanted before. -/
theorem wanted_holding (more : List MessageColumns) (author : Text) :
    wanted sodium source.messages puller author <+:
      wanted sodium (source.holding more).messages puller author := by
  rw [wanted, wanted, lacking, lacking, Replica.holding, MessagesTable.insert_all_columns,
    List.filter_append, List.filter_append]
  exact List.prefix_append _ _

/-- The same of an attempt in new processes. -/
theorem resume_takes (resumption : Resumption) (unfailing : resumption.Unfailing)
    (sourceSound : Sound sodium (replicas.1.holding resumption.more).messages)
    (pullerSound : Sound sodium replicas.2.messages) :
    (resume sodium replicas resumption).1.messages =
        (replicas.1.holding resumption.more).messages ∧
      (resume sodium replicas resumption).2.security = replicas.2.security ∧
      ∃ update rows, Supplies sodium update (replicas.1.holding resumption.more).messages
          replicas.2.messages ∧
        rows <+: acceptedRows sodium replicas.2 update ∧
        (resume sodium replicas resumption).2.messages.columns =
          replicas.2.messages.columns ++ rows :=
  @attempt_takes _ sodium
    ((replicas.1.holding resumption.more).revived resumption.sourceScript resumption.sourceStack)
    (replicas.2.revived resumption.pullerScript resumption.pullerStack) unfailing.1 unfailing.2
    sourceSound pullerSound

/-- An attempt makes progress or leaves things as they are. -/
theorem Progress.resume (progress : Progress sodium puller replicas) (resumption : Resumption)
    (unfailing : resumption.Unfailing)
    (sourceSound : Sound sodium (replicas.1.holding resumption.more).messages) :
    Progress sodium puller (resume sodium replicas resumption) := by
  obtain ⟨messages, security, update, rows, supplies, starts, columns⟩ :=
    resume_takes resumption unfailing sourceSound progress.sound
  refine ⟨?_, security.trans progress.security, fun author => ?_⟩
  · exact supplies.sound_begun sourceSound progress.sound
      (starts.sublist.trans (accepted_rows_sublist sodium _ _)) columns
  · obtain ⟨taken, inside, held⟩ := progress.held author
    have extended := @wanted_holding _ sodium replicas.1 puller resumption.more author
    have within := inside.trans extended.sublist.subperm
    have remaining := wanted_remaining sourceSound.distinct progress.security author within held
    -- What was accepted now of this author is a part of what remained.
    have begun : (rows.filter fun row => row.author = author).Subperm
        (wanted sodium (replicas.1.holding resumption.more).messages replicas.2 author) :=
      (starts.filter _).sublist.subperm.trans (supplies.accepted_wanted author).subperm
    refine ⟨taken ++ rows.filter fun row => row.author = author, ?_, ?_⟩
    · rw [messages]
      exact ((List.subperm_append_left taken).mpr begun).trans remaining.subperm
    · rw [columns, List.filter_append, held, List.append_assoc]

/-- Nothing has been pulled at first. -/
theorem Progress.initially (source puller : Replica) (sound : Sound sodium puller.messages) :
    Progress sodium puller (source, puller) where
  sound := sound
  security := rfl
  held _ := ⟨[], List.nil_subperm, (List.append_nil _).symm⟩

/-- A table that begins like a sound one is sound. -/
theorem Sound.begun {table whole : MessagesTable} (sound : Sound sodium whole)
    (starts : table.columns <+: whole.columns) : Sound sodium table where
  distinct := sound.distinct.sublist (starts.sublist.map _)
  nonnegative row member := sound.nonnegative row (starts.subset member)
  clean row member := sound.clean row (starts.subset member)
  readable row member := sound.readable row (starts.subset member)

/-- Any number of attempts make progress. -/
theorem Progress.resumed (progress : Progress sodium puller replicas)
    (resumptions : List Resumption) (unfailing : ∀ resumption ∈ resumptions, resumption.Unfailing)
    (sourceSound : Sound sodium (replicas.1.holding (resumptions.flatMap (·.more))).messages) :
    Progress sodium puller (resumptions.foldl (Log.resume sodium) replicas) ∧
      (resumptions.foldl (Log.resume sodium) replicas).1.messages =
        (replicas.1.holding (resumptions.flatMap (·.more))).messages := by
  induction resumptions generalizing replicas with
  | nil => exact ⟨progress, rfl⟩
  | cons resumption rest inductionHypothesis =>
    have sound : Sound sodium (replicas.1.holding resumption.more).messages := by
      refine sourceSound.begun ?_
      rw [Replica.holding, Replica.holding, MessagesTable.insert_all_columns,
        MessagesTable.insert_all_columns, List.flatMap_cons, ← List.append_assoc]
      exact List.prefix_append _ _
    have first := unfailing resumption List.mem_cons_self
    have kept := (resume_takes resumption first sound progress.sound).1
    have grown : ((Log.resume sodium replicas resumption).1.holding
        (rest.flatMap (·.more))).messages =
          (replicas.1.holding ((resumption :: rest).flatMap (·.more))).messages := by
      simp only [Replica.holding, MessagesTable.insertAll, List.flatMap_cons, List.foldl_append]
        at kept ⊢
      rw [kept]
    rw [← grown] at sourceSound ⊢
    exact inductionHypothesis (progress.resume resumption first sound)
      (fun each listed => unfailing each (List.mem_cons_of_mem _ listed)) sourceSound

end Progress

/-- Tables that are told apart by author and lamport and have the same rows of each
author differ in order only. -/
theorem perm_of_authors {left right : MessagesTable} (leftDistinct : left.Distinct)
    (rightDistinct : right.Distinct)
    (same : ∀ author, (left.columns.filter fun row => row.author = author).Perm
      (right.columns.filter fun row => row.author = author)) :
    left.columns.Perm right.columns := by
  refine (List.perm_ext_iff_of_nodup leftDistinct.of_map rightDistinct.of_map).mpr fun row => ?_
  have own : ∀ rows : List MessageColumns,
      row ∈ rows ↔ row ∈ rows.filter fun other => other.author = row.author := by
    simp
  rw [own left.columns, (same row.author).mem_iff, ← own right.columns]

/-- Interrupted pulls are resumed. Let a pull be tried any number of times, where
no SQLite call fails but either process may be killed at any call, and let the
source store more between the attempts. Then the puller has of each author, after its old
rows, a part of what one whole pull would have given it, and the next whole pull
gives it the rest: the same rows of each author, none twice, with the same header. -/
theorem interrupted_pulls_resume (source puller : Replica) (resumptions : List Resumption)
    (unfailing : ∀ resumption ∈ resumptions, resumption.Unfailing)
    (sourceSound : Sound sodium (source.holding (resumptions.flatMap (·.more))).messages)
    (pullerSound : Sound sodium puller.messages) :
    let reached := resumptions.foldl (resume sodium) (source, puller)
    reached.1.messages = (source.holding (resumptions.flatMap (·.more))).messages ∧
      ∃ resumed whole, pull sodium reached.1.calm reached.2.calm = .ok resumed ∧
        pull sodium reached.1.calm puller.calm = .ok whole ∧
        (∀ author, ∃ taken rest,
          reached.2.messages.columns.filter (fun row => row.author = author) =
              puller.messages.columns.filter (fun row => row.author = author) ++ taken ∧
            resumed.puller.messages.columns.filter (fun row => row.author = author) =
              reached.2.messages.columns.filter (fun row => row.author = author) ++ rest ∧
            (whole.puller.messages.columns.filter fun row => row.author = author).Perm
              (puller.messages.columns.filter (fun row => row.author = author) ++
                (taken ++ rest))) ∧
        resumed.puller.messages.Distinct ∧
        resumed.puller.messages.columns.Perm whole.puller.messages.columns ∧
        ∃ header, getHeader.run resumed.puller = .ok header resumed.puller ∧
          getHeader.run whole.puller = .ok header whole.puller := by
  intro reached
  obtain ⟨progress, messages⟩ :=
    (Progress.initially source puller pullerSound).resumed resumptions unfailing sourceSound
  have reachedSound : Sound sodium reached.1.messages := messages ▸ sourceSound
  obtain ⟨resumed, _, completed, _, resumedAfter, resumedSupplies⟩ :=
    pull_run sodium reached.1.calm_reliable reached.2.calm_reliable reachedSound progress.sound
  obtain ⟨whole, _, completedWhole, _, wholeAfter, wholeSupplies⟩ :=
    pull_run sodium reached.1.calm_reliable puller.calm_reliable reachedSound pullerSound
  have each : ∀ author, ∃ taken rest,
      reached.2.messages.columns.filter (fun row => row.author = author) =
          puller.messages.columns.filter (fun row => row.author = author) ++ taken ∧
        resumed.puller.messages.columns.filter (fun row => row.author = author) =
          reached.2.messages.columns.filter (fun row => row.author = author) ++ rest ∧
        (whole.puller.messages.columns.filter fun row => row.author = author).Perm
          (puller.messages.columns.filter (fun row => row.author = author) ++ (taken ++ rest)) := by
    intro author
    obtain ⟨taken, inside, held⟩ := progress.held author
    have remaining := wanted_remaining reachedSound.distinct progress.security author inside held
    have given := wholeSupplies.accepted_wanted author
    have brought := resumedSupplies.accepted_wanted author
    let added := acceptedRows sodium reached.2.calm resumed.update
    refine ⟨taken, added.filter fun row => row.author = author, held, ?_, ?_⟩
    · rw [resumedAfter, Replica.store_columns, List.filter_append]
      rfl
    · rw [wholeAfter, Replica.store_columns, List.filter_append]
      exact (given.trans ((brought.append_left taken).trans remaining).symm).append_left _
  have distinct : resumed.puller.messages.Distinct ∧ whole.puller.messages.Distinct := by
    rw [resumedAfter, wholeAfter]
    exact ⟨(resumedSupplies.sound_after reachedSound progress.sound).distinct,
      (wholeSupplies.sound_after reachedSound pullerSound).distinct⟩
  have permuted := perm_of_authors distinct.1 distinct.2 fun author => by
    obtain ⟨taken, rest, held, complete, permuted⟩ := each author
    rw [complete, held, List.append_assoc]
    exact permuted.symm
  refine ⟨messages, resumed, whole, completed, completedWhole, each, distinct.1, permuted, ?_⟩
  have reliable : resumed.puller.Reliable ∧ whole.puller.Reliable := by
    rw [resumedAfter, wholeAfter]
    exact ⟨reached.2.calm_reliable.store _, puller.calm_reliable.store _⟩
  refine ⟨tableHeaders resumed.puller.messages, get_header_run reliable.1, ?_⟩
  rw [table_headers_congr permuted]
  exact get_header_run reliable.2

/-- The source has stored one more message; the puller is killed at the step of its
third insertion. -/
def sampleResumption : Resumption where
  more := [signedRow 1 ⟨ascii "a", 7, 1, ascii "seven"⟩]
  sourceScript := []
  sourceStack := []
  pullerScript := completing 31 ++ [.stops]
  pullerStack := []

/-- An attempt that is killed after it stored two messages, and one more pull. -/
theorem interrupted_pulls_resume_sample :
    let reached := [sampleResumption].foldl (resume Sodium.transparent)
      (scatteredSource, sampleReplica)
    reached.1.messages = (scatteredSource.holding ([sampleResumption].flatMap (·.more))).messages ∧
      ∃ resumed whole, pull Sodium.transparent reached.1.calm reached.2.calm = .ok resumed ∧
        pull Sodium.transparent reached.1.calm sampleReplica.calm = .ok whole ∧
        (∀ author, ∃ taken rest,
          reached.2.messages.columns.filter (fun row => row.author = author) =
              sampleReplica.messages.columns.filter (fun row => row.author = author) ++ taken ∧
            resumed.puller.messages.columns.filter (fun row => row.author = author) =
              reached.2.messages.columns.filter (fun row => row.author = author) ++ rest ∧
            (whole.puller.messages.columns.filter fun row => row.author = author).Perm
              (sampleReplica.messages.columns.filter (fun row => row.author = author) ++
                (taken ++ rest))) ∧
        resumed.puller.messages.Distinct ∧
        resumed.puller.messages.columns.Perm whole.puller.messages.columns ∧
        ∃ header, getHeader.run resumed.puller = .ok header resumed.puller ∧
          getHeader.run whole.puller = .ok header whole.puller := by
  refine interrupted_pulls_resume Sodium.transparent scatteredSource sampleReplica
    [sampleResumption] ?_ ⟨?_, ?_, ?_, ?_⟩ ?_
  · intro resumption listed
    have same : resumption = sampleResumption := List.mem_singleton.mp listed
    rw [same]
    exact ⟨by decide, by decide⟩
  · unfold MessagesTable.Distinct
    decide
  · decide
  · decide
  · unfold Readable
    decide
  · have none : sampleReplica.messages.columns = [] := rfl
    refine ⟨?_, ?_, ?_, ?_⟩
    · rw [MessagesTable.Distinct, none]
      exact List.nodup_nil
    · simp [none]
    · simp [none]
    · simp [Readable, none]

end Log

end Replikon
