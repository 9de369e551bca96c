import Replikon.Network.Interleavings

/-!
# A pull in separate steps

The four steps of a pull may lie far apart, and anything may happen between them.
The header tells what the source had when it was offered, the request what the
puller lacked when it asked; the source answers with no more and no less, since
rows stay, and the puller merges what it can verify when the answer arrives. So the
pull acts as a whole one of what was offered. Rows that the puller got meanwhile
from elsewhere are brought again.
-/

namespace Replikon.Network

open Foundation Foundation.Gossip MessagesTable

variable {ι : Type} [DecidableEq ι] {Signature : Type} (sodium : Sodium Signature)
  (layouts : KeysCrdt.Layouts) (name : ι → Author) (start : ι → Replica)

/-- The steps of a pull with what happens before and between them. The source offers
its header after `before`, the puller asks with it after `first`, the source answers
after `second`, and the puller merges the answer after `third`. -/
structure SplitPull (source puller : ι) (before first second third : List (Occurrence ι Signature))
    (request : Log.Request) (offered asked answered arrived final : Traffic ι Signature) : Prop where
  offers : run (occur sodium layouts name) (quietStart start) before = some offered
  asks : run (occur sodium layouts name) offered first = some asked
  requested : ∃ header,
    Log.getHeader.run (offered.replicas source) = .ok header (offered.replicas source) ∧
      (Log.getRequest header).run (asked.replicas puller) = .ok request (asked.replicas puller)
  waits : run (occur sodium layouts name) asked second = some answered
  answers : run (occur sodium layouts name) answered (.answer source request :: third) = some arrived
  merges : occur sodium layouts name arrived (.deliver puller answered.sent.length) = some final

/-- Everything that happens up to the merge. -/
def SplitPull.occurrences (source : ι) (before first second third : List (Occurrence ι Signature))
    (request : Log.Request) : List (Occurrence ι Signature) :=
  before ++ (first ++ (second ++ (.answer source request :: third)))

variable {sodium layouts name start} {entries : ι → List (UInt64 × Text)}
  {traffic next final : Traffic ι Signature}

/-- Updates that were sent stay where they are. -/
theorem occur_sent (occurrence : Occurrence ι Signature)
    (occurred : occur sodium layouts name traffic occurrence = some next) :
    traffic.sent <+: next.sent := by
  cases occurrence with
  | add author given originTs body =>
    rw [occur] at occurred
    split at occurred <;> cases occurred
    exact List.prefix_refl _
  | answer source request =>
    rw [occur] at occurred
    split at occurred <;> cases occurred
    exact List.prefix_append _ _
  | deliver puller place =>
    rw [occur] at occurred
    split at occurred
    · split at occurred <;> cases occurred
      exact List.prefix_refl _
    · cases occurred
      exact List.prefix_refl _
  | call replica made quiet =>
    cases occurred
    exact List.prefix_refl _

theorem run_sent (occurrences : List (Occurrence ι Signature))
    (ran : run (occur sodium layouts name) traffic occurrences = some final) :
    traffic.sent <+: final.sent := by
  induction occurrences generalizing traffic with
  | nil =>
    cases ran
    exact List.prefix_refl _
  | cons occurrence rest inductionHypothesis =>
    obtain ⟨next, occurred, ranRest⟩ := Option.bind_eq_some_iff.mp ran
    exact (occur_sent occurrence occurred).trans (inductionHypothesis ranRest)

/-- Where a run ends, the longer histories flow, and what was held still is. -/
theorem flowing_along (cast : Cast name start) (occurrences : List (Occurrence ι Signature))
    (limited : Limited fun author => entries author ++ voiced author occurrences)
    (flowing : Flowing sodium name start entries traffic)
    (ran : run (occur sodium layouts name) traffic occurrences = some final) :
    Flowing sodium name start (fun author => entries author ++ voiced author occurrences) final ∧
      ∀ place, held sodium traffic place ⊆ held sodium final place := by
  obtain ⟨reached, ranThere, flowingThere, spreads⟩ :=
    flowing_run layouts cast occurrences limited flowing
  obtain rfl : reached = final := by
    rw [ran] at ranThere
    exact (Option.some.inj ranThere).symm
  refine ⟨flowingThere, fun place => ?_⟩
  rw [spreads]
  exact subset_spread _ _ place

/-- What an author adds in a run it adds in the two parts of it. -/
theorem voiced_append (author : ι) (earlier later : List (Occurrence ι Signature)) :
    voiced author (earlier ++ later) = voiced author earlier ++ voiced author later :=
  List.filterMap_append

omit [DecidableEq ι] in
/-- A table from histories is plain while a row id is left. -/
theorem Flowing.plain (flowing : Flowing sodium name start entries traffic)
    (cast : Cast name start) (limited : Limited entries) (replica : ι)
    (room : (traffic.replicas replica).messages.columns.length < 2 ^ 63) :
    Log.Plain (traffic.replicas replica).messages := by
  refine ⟨?_, ?_, room⟩
  · intro row member
    exact ((flowing.reads_back cast limited replica).clean row member).1
  · intro row member
    obtain ⟨author, listed⟩ := flowing.known replica row member
    exact (history_row limited author row listed).2

omit [DecidableEq ι] in
/-- A row is at a replica exactly if its identity is, where all rows come from
histories. -/
theorem Flowing.identity_iff (flowing : Flowing sodium name start entries traffic)
    (cast : Cast name start) (limited : Limited entries) (place : Place ι) (row : MessageColumns)
    (member : row ∈ held sodium traffic place) (replica : ι) :
    row.identity ∈ (traffic.replicas replica).messages.columns.map MessageColumns.identity ↔
      row ∈ (traffic.replicas replica).messages.columns := by
  constructor
  · intro known
    obtain ⟨other, stored, same⟩ := List.mem_map.mp known
    have equal := flowing.agree cast limited (.replica replica) place other row stored member same
    exact equal ▸ stored
  · intro stored
    exact List.mem_map_of_mem stored

/-- The answer to a request is the update at the place that was next. -/
theorem Flowing.answered_update (flowing : Flowing sodium name start entries traffic)
    (cast : Cast name start) (limited : Limited entries) (source : ι) (request : Log.Request)
    (third : List (Occurrence ι Signature))
    (answers : run (occur sodium layouts name) traffic (.answer source request :: third) =
      some final) :
    ∃ update, final.sent[traffic.sent.length]? = some update ∧
      (∀ offer ∈ Log.offers update, offer.message.author = offer.key) ∧
      ∀ row, row ∈ (Log.offers update).map (Log.Offer.row sodium) ↔
        row ∈ (traffic.replicas source).messages.columns ∧ Log.Asks request row := by
  obtain ⟨update, searched, answered, filed, asked⟩ :=
    Log.get_update_asked (flowing.reliable source) (flowing.reads_back cast limited source) request
  obtain ⟨next, occurred, ran⟩ := Option.bind_eq_some_iff.mp answers
  simp only [occur, answered] at occurred
  obtain rfl := Option.some.inj occurred
  obtain ⟨later, sent⟩ := run_sent third ran
  refine ⟨update, ?_, filed, asked⟩
  rw [← sent, List.getElem?_append_left (by simp), List.getElem?_concat_length]

/-- A pull in separate steps acts as a whole one of what was offered. Whatever happens
before and between its steps, the merge brings exactly the rows that the source had
when it offered its header, that the puller had not when it asked, and that the puller
verifies when it merges. So nothing is lost: afterwards the puller has all it can
verify of what was offered. -/
theorem split_pull_exact (sodium : Sodium Signature) (layouts : KeysCrdt.Layouts)
    (name : ι → Author) (start : ι → Replica) (cast : Cast name start) (source puller : ι)
    (before first second third : List (Occurrence ι Signature)) (request : Log.Request)
    (offered asked answered arrived final : Traffic ι Signature)
    (pull : SplitPull sodium layouts name start source puller before first second third request
      offered asked answered arrived final)
    (limited : Limited fun author =>
      voiced author (SplitPull.occurrences source before first second third request))
    (sourceRoom : (offered.replicas source).messages.columns.length < 2 ^ 63)
    (pullerRoom : (asked.replicas puller).messages.columns.length < 2 ^ 63)
    (trusted : Log.Trusted (offered.replicas source).messages (asked.replicas puller)) :
    ∃ added, (final.replicas puller).messages.columns =
        (arrived.replicas puller).messages.columns ++ added ∧
      (∀ row, row ∈ added ↔ row ∈ (offered.replicas source).messages.columns ∧
        row ∉ (asked.replicas puller).messages.columns ∧
          Log.ownSignature sodium (arrived.replicas puller) row = true) ∧
      ∀ row ∈ (offered.replicas source).messages.columns,
        Log.ownSignature sodium (arrived.replicas puller) row = true →
          row ∈ (final.replicas puller).messages.columns := by
  have whole : Limited fun author => ((voiced author before ++ voiced author first) ++
      voiced author second) ++
        voiced author ((.answer source request : Occurrence ι Signature) :: third) := by
    simpa only [SplitPull.occurrences, voiced_append, List.append_assoc] using limited
  obtain ⟨header, shown, returned⟩ := pull.requested
  have early : Flowing sodium name start (fun author => voiced author before) offered :=
    (flowing_along cast before whole.of_append.of_append.of_append
      (Flowing.initially cast) pull.offers).1
  obtain ⟨flowingAsked, keptAsked⟩ :=
    flowing_along cast first whole.of_append.of_append early pull.asks
  obtain ⟨flowingAnswered, keptAnswered⟩ :=
    flowing_along cast second whole.of_append flowingAsked pull.waits
  obtain ⟨flowingArrived, keptArrived⟩ := flowing_along cast _ whole flowingAnswered pull.answers
  obtain ⟨update, sent, filed, asks⟩ :=
    flowingAnswered.answered_update cast whole.of_append source request third pull.answers
  have offeredHeader : header = tableHeaders (offered.replicas source).messages := by
    rw [Log.get_header_run (early.reliable source)] at shown
    injection shown with same
    exact same.symm
  subst offeredHeader
  have sourcePlain := early.plain cast whole.of_append.of_append.of_append source sourceRoom
  have pullerPlain := flowingAsked.plain cast whole.of_append.of_append puller pullerRoom
  -- What the request asks for, among the rows that the source has when it answers.
  have wanted : ∀ row ∈ (answered.replicas source).messages.columns, Log.Asks request row ↔
      row ∈ (offered.replicas source).messages.columns ∧
        row ∉ (asked.replicas puller).messages.columns := by
    intro row member
    obtain ⟨author, listed⟩ := flowingAnswered.known source row member
    have nonnegative := (history_row whole.of_append author row listed).2
    rw [Log.request_asks_iff (flowingAsked.reliable puller) trusted sourcePlain pullerPlain returned
      row nonnegative]
    have atOffer : row.identity ∈
          (offered.replicas source).messages.columns.map MessageColumns.identity ↔
        row ∈ (offered.replicas source).messages.columns := by
      refine ⟨fun known => ?_, fun stored => List.mem_map_of_mem stored⟩
      obtain ⟨other, stored, same⟩ := List.mem_map.mp known
      have stays : other ∈ held sodium answered (.replica source) :=
        keptAnswered (.replica source) (keptAsked (.replica source) stored)
      have equal := flowingAnswered.agree cast whole.of_append (.replica source) (.replica source)
        other row stays member same
      exact equal ▸ stored
    rw [atOffer]
    refine and_congr_right fun stored => not_congr ?_
    exact flowingAsked.identity_iff cast whole.of_append.of_append (.replica source) row
      (keptAsked (.replica source) stored) puller
  have merged : (final.replicas puller).messages.columns =
      (arrived.replicas puller).messages.columns ++
        Log.acceptedRows sodium (arrived.replicas puller) update := by
    have merges := pull.merges
    simp only [occur, sent, Log.merge_run (flowingArrived.reliable puller) update] at merges
    obtain rfl := Option.some.inj merges
    simp only [Function.update_self, Replica.store_columns]
  have brought : ∀ row, row ∈ Log.acceptedRows sodium (arrived.replicas puller) update ↔
      row ∈ (offered.replicas source).messages.columns ∧
        row ∉ (asked.replicas puller).messages.columns ∧
          Log.ownSignature sodium (arrived.replicas puller) row = true := by
    intro row
    rw [Log.accepted_rows_of_filed filed, List.mem_filter, asks, ← and_assoc]
    refine and_congr_left fun _ => ?_
    constructor
    · rintro ⟨member, asked⟩
      exact (wanted row member).mp asked
    · intro both
      have member : row ∈ (answered.replicas source).messages.columns :=
        keptAnswered (.replica source) (keptAsked (.replica source) both.1)
      exact ⟨member, (wanted row member).mpr both⟩
  refine ⟨_, merged, brought, fun row stored verified => ?_⟩
  rw [merged]
  by_cases had : row ∈ (asked.replicas puller).messages.columns
  · exact List.mem_append_left _ (keptArrived (.replica puller) (keptAnswered (.replica puller) had))
  · exact List.mem_append_right _ ((brought row).mpr ⟨stored, had, verified⟩)

/-- Where a run from the strangers ends. -/
def strangersAfter (occurrences : List (Occurrence Bool Buffer)) : Traffic Bool Buffer :=
  (run (occur Sodium.transparent KeysCrdt.sampleLayouts sampleName) (quietStart strangers)
    occurrences).getD (quietStart strangers)

/-- What is added before the header is offered, and before it is answered. -/
def addedEarly : List (Occurrence Bool Buffer) := [.add true 0 5 (ascii "hi")]

def addedLate : List (Occurrence Bool Buffer) := [.add true 0 6 (ascii "you")]

theorem split_occurrences_limited : Limited fun author => voiced author
    (SplitPull.occurrences true addedEarly [] addedLate [keyGiven] firstAsked) := by
  refine ⟨?_, ?_⟩ <;> intro author <;> cases author <;> decide

/-- Everything up to the merge, and the merge. -/
def answeredEarly : List (Occurrence Bool Buffer) :=
  addedEarly ++ (addedLate ++ (.answer true firstAsked :: [keyGiven]))

set_option maxRecDepth 4096 in
theorem sample_split_pull :
    SplitPull Sodium.transparent KeysCrdt.sampleLayouts sampleName strangers true false addedEarly []
      addedLate [keyGiven] firstAsked (strangersAfter addedEarly) (strangersAfter addedEarly)
      (strangersAfter (addedEarly ++ addedLate)) (strangersAfter answeredEarly)
      (strangersAfter (answeredEarly ++ [.deliver false 0])) := by
  refine ⟨rfl, rfl, ⟨_, Log.get_header_run rfl, rfl⟩, rfl, rfl, rfl⟩

theorem split_pull_exact_sample :
    ∃ added, ((strangersAfter (answeredEarly ++ [.deliver false 0])).replicas false).messages.columns =
        ((strangersAfter answeredEarly).replicas false).messages.columns ++ added ∧
      (∀ row, row ∈ added ↔ row ∈ ((strangersAfter addedEarly).replicas true).messages.columns ∧
        row ∉ ((strangersAfter addedEarly).replicas false).messages.columns ∧
          Log.ownSignature Sodium.transparent ((strangersAfter answeredEarly).replicas false) row =
            true) ∧
      ∀ row ∈ ((strangersAfter addedEarly).replicas true).messages.columns,
        Log.ownSignature Sodium.transparent ((strangersAfter answeredEarly).replicas false) row =
          true →
          row ∈ ((strangersAfter (answeredEarly ++ [.deliver false 0])).replicas
            false).messages.columns :=
  split_pull_exact Sodium.transparent KeysCrdt.sampleLayouts sampleName strangers strangers_cast true
    false addedEarly [] addedLate [keyGiven] firstAsked _ _ _ _ _ sample_split_pull
    split_occurrences_limited (by decide +kernel) (by decide +kernel) (.inl rfl)

end Replikon.Network
