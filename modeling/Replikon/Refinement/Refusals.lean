import Replikon.Refinement.Authenticity
import Replikon.Refinement.Pull

/-!
# What becomes of refused messages

A pull offers the rows that the puller lacks, and the puller stores those that
verify under the key it has for their author. A refused row stays lacking: every
later pull offers it again, and the first one that finds its author's key right
stores it. A stored row is not offered again.
-/

namespace Replikon.Log

open Foundation

variable {Signature : Type} {sodium : Sodium Signature}

/-- Of offers that are filed under the authors of their messages, those are accepted
that carry their author's signature. -/
theorem accepted_rows_of_filed {update : Update Signature}
    (filed : ∀ offer ∈ offers update, offer.message.author = offer.key) (replica : Replica) :
    acceptedRows sodium replica update =
      ((offers update).map (Offer.row sodium)).filter (ownSignature sodium replica) := by
  rw [acceptedRows, accepted, List.filter_map]
  congr 1
  apply List.filter_congr
  intro offer member
  rw [Function.comp_apply, own_signature_row, filed offer member]
  rfl

section Supplied

variable {update : Update Signature} {source puller : MessagesTable}
  (supplies : Supplies sodium update source puller)
include supplies

/-- Offers are filed under the authors of their messages. -/
theorem Supplies.filed (offer : Offer Signature) (member : offer ∈ offers update) :
    offer.message.author = offer.key := by
  obtain ⟨entry, listed, offered⟩ := List.mem_flatMap.mp member
  have key : offer.key = entry.1 := by
    obtain ⟨_, _, rfl⟩ := List.mem_map.mp offered
    rfl
  exact (supplies.owned entry listed _ (List.mem_map_of_mem offered)).2.trans key.symm

/-- The accepted rows are the offered ones that carry their author's signature. -/
theorem Supplies.accepted_rows (replica : Replica) :
    acceptedRows sodium replica update =
      ((offers update).map (Offer.row sodium)).filter (ownSignature sodium replica) :=
  accepted_rows_of_filed supplies.filed replica

/-- The accepted rows of one author, in the order of the update. -/
theorem Supplies.accepted_of_author (replica : Replica) (author : Text) :
    (acceptedRows sodium replica update).filter (fun row => row.author = author) =
      (rowsUnder sodium update author).filter (ownSignature sodium replica) := by
  rw [supplies.accepted_rows, List.filter_filter, ← supplies.of_author author, List.filter_filter]
  apply List.filter_congr
  intro row _
  exact Bool.and_comm _ _

/-- What is accepted is in the source, lacking at the puller and well signed. -/
theorem Supplies.mem_accepted_rows (replica : Replica) (row : MessageColumns) :
    row ∈ acceptedRows sodium replica update ↔
      row ∈ source.columns ∧ row.identity ∉ puller.columns.map MessageColumns.identity ∧
        ownSignature sodium replica row = true := by
  have own : row ∈ acceptedRows sodium replica update ↔
      row ∈ (acceptedRows sodium replica update).filter fun other => other.author = row.author := by
    simp
  rw [own, supplies.accepted_of_author, List.mem_filter, (supplies row.author).mem_iff, lacking,
    List.mem_filter]
  simp [and_assoc]

end Supplied

/-- A row of the source is at the puller after a merge if it was there before or
is well signed. -/
theorem Supplies.stored_iff {update : Update Signature} {source : MessagesTable} {puller : Replica}
    (supplies : Supplies sodium update source puller.messages) (distinct : source.Distinct)
    (row : MessageColumns) (member : row ∈ source.columns) :
    row.identity ∈ (puller.store (acceptedRows sodium puller update)).messages.columns.map
        MessageColumns.identity ↔
      row.identity ∈ puller.messages.columns.map MessageColumns.identity ∨
        ownSignature sodium puller row = true := by
  rw [Replica.store_columns, List.map_append, List.mem_append]
  constructor
  · rintro (held | added)
    · exact .inl held
    · obtain ⟨other, accepted, same⟩ := List.mem_map.mp added
      obtain ⟨present, _, signed⟩ := (supplies.mem_accepted_rows puller other).mp accepted
      have equal : other = row := List.inj_on_of_nodup_map distinct present member same
      exact .inr (equal ▸ signed)
  · rintro (held | signed)
    · exact .inl held
    · by_cases held : row.identity ∈ puller.messages.columns.map MessageColumns.identity
      · exact .inl held
      · exact .inr (List.mem_map_of_mem
          ((supplies.mem_accepted_rows puller row).mpr ⟨member, held, signed⟩))

/-- After a merge the puller lacks the rows that it refused. -/
theorem Supplies.lacking_after {update : Update Signature} {source : MessagesTable}
    {puller : Replica} (supplies : Supplies sodium update source puller.messages)
    (distinct : source.Distinct) (author : Text) :
    lacking source (puller.store (acceptedRows sodium puller update)).messages author =
      (lacking source puller.messages author).filter fun row => !ownSignature sodium puller row := by
  rw [lacking, lacking, List.filter_filter]
  apply List.filter_congr
  intro row member
  simp only [supplies.stored_iff distinct row member, not_or, ← and_assoc, Bool.decide_and,
    Bool.not_eq_true]
  rw [Bool.and_comm]
  congr 1
  cases ownSignature sodium puller row <;> rfl

/-- A sound table stays sound when a puller stores accepted rows of another one. -/
theorem Supplies.sound_after {update : Update Signature} {source : MessagesTable} {puller : Replica}
    (supplies : Supplies sodium update source puller.messages) (sourceSound : Sound sodium source)
    (pullerSound : Sound sodium puller.messages) :
    Sound sodium (puller.store (acceptedRows sodium puller update)).messages := by
  have each : ∀ row ∈ (puller.store (acceptedRows sodium puller update)).messages.columns,
      row ∈ puller.messages.columns ∨ row ∈ source.columns := by
    intro row member
    rw [Replica.store_columns] at member
    rcases List.mem_append.mp member with held | accepted
    · exact .inl held
    · exact .inr ((supplies.mem_accepted_rows puller row).mp accepted).1
  refine ⟨?_, ?_, ?_, ?_⟩
  · rw [MessagesTable.Distinct, Replica.store_columns]
    exact supplies.store_distinct sourceSound.distinct pullerSound.distinct _
      (accepted_rows_sublist sodium puller update)
  · intro row member
    exact (each row member).elim (pullerSound.nonnegative row) (sourceSound.nonnegative row)
  · intro row member
    exact (each row member).elim (pullerSound.clean row) (sourceSound.clean row)
  · intro row member
    exact (each row member).elim (pullerSound.readable row) (sourceSound.readable row)

variable (sodium)

/-- A refused message is offered again until it verifies. After a complete pull,
let the key tables change in any way and the puller pull again: for each author
the second update offers exactly the rows of the first one that the puller
refused, and the puller adds those of them that verify now. -/
theorem refused_until_verified (source puller laterSource laterPuller : Replica)
    (sourceReliable : source.Reliable) (pullerReliable : puller.Reliable)
    (sourceSound : Sound sodium source.messages) (pullerSound : Sound sodium puller.messages)
    (pulled : Pulled Signature) (completed : pull sodium source puller = .ok pulled)
    (laterSourceReliable : laterSource.Reliable) (laterPullerReliable : laterPuller.Reliable)
    (sameSource : laterSource.messages = pulled.source.messages)
    (samePuller : laterPuller.messages = pulled.puller.messages) :
    ∃ again, pull sodium laterSource laterPuller = .ok again ∧ ∀ author,
      (rowsUnder sodium again.update author).Perm
          ((rowsUnder sodium pulled.update author).filter
            fun row => !ownSignature sodium puller row) ∧
        again.puller.messages.columns.filter (fun row => row.author = author) =
          pulled.puller.messages.columns.filter (fun row => row.author = author) ++
            (rowsUnder sodium again.update author).filter (ownSignature sodium laterPuller) := by
  obtain ⟨first, searched, completes, sourceAfter, pullerAfter, supplies⟩ :=
    pull_run sodium sourceReliable pullerReliable sourceSound pullerSound
  have same : first = pulled := by
    rw [completed] at completes
    exact (Except.ok.inj completes).symm
  subst same
  have stays : laterSource.messages = source.messages := by
    rw [sameSource, sourceAfter]
  rw [pullerAfter] at samePuller
  have laterSourceSound : Sound sodium laterSource.messages := stays ▸ sourceSound
  have laterPullerSound : Sound sodium laterPuller.messages :=
    samePuller ▸ supplies.sound_after sourceSound pullerSound
  obtain ⟨again, _, completesAgain, _, pullerAgain, suppliesAgain⟩ :=
    pull_run sodium laterSourceReliable laterPullerReliable laterSourceSound laterPullerSound
  refine ⟨again, completesAgain, fun author => ?_⟩
  constructor
  · have remaining : lacking laterSource.messages laterPuller.messages author =
        (lacking source.messages puller.messages author).filter
          fun row => !ownSignature sodium puller row := by
      rw [stays, samePuller]
      exact supplies.lacking_after sourceSound.distinct author
    refine (suppliesAgain author).trans ?_
    rw [remaining]
    exact ((supplies author).filter _).symm
  · rw [pullerAgain, Replica.store_columns, List.filter_append, suppliesAgain.accepted_of_author,
      samePuller, pullerAfter]

/-- A new replica that knows no key. -/
def strangerReplica : Replica :=
  .fresh false (ascii "b") (Sodium.transparent.publicKey (sampleKey 2)) (sampleKey 2) []

theorem stranger_sound : Sound Sodium.transparent strangerReplica.messages := by
  have none : strangerReplica.messages.columns = [] := rfl
  refine ⟨?_, ?_, ?_, ?_⟩
  · rw [MessagesTable.Distinct, none]
    exact List.nodup_nil
  · simp [none]
  · simp [none]
  · simp [Readable, none]

/-- A replica without keys pulls the messages of `a` and `c`, is given the key of
`a` and pulls again. -/
theorem refused_until_verified_sample :
    ∃ pulled, pull Sodium.transparent scatteredSource strangerReplica = .ok pulled ∧
      ∃ again, pull Sodium.transparent scatteredSource
          { sampleReplica with messages := pulled.puller.messages } = .ok again ∧ ∀ author,
        (rowsUnder Sodium.transparent again.update author).Perm
            ((rowsUnder Sodium.transparent pulled.update author).filter
              fun row => !ownSignature Sodium.transparent strangerReplica row) ∧
          again.puller.messages.columns.filter (fun row => row.author = author) =
            pulled.puller.messages.columns.filter (fun row => row.author = author) ++
              (rowsUnder Sodium.transparent again.update author).filter
                (ownSignature Sodium.transparent
                  { sampleReplica with messages := pulled.puller.messages }) := by
  obtain ⟨pulled, searched, completed, sourceAfter, _, _⟩ :=
    @pull_run _ Sodium.transparent scatteredSource strangerReplica rfl rfl scattered_source_sound
      stranger_sound
  exact ⟨pulled, completed, refused_until_verified Sodium.transparent scatteredSource
    strangerReplica scatteredSource { sampleReplica with messages := pulled.puller.messages } rfl
    rfl scattered_source_sound stranger_sound pulled completed rfl rfl (by rw [sourceAfter]) rfl⟩

end Replikon.Log
