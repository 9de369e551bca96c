import Replikon.Refinement.Requests

/-!
# Merging in another order, and merging again

What a replica offers and hands out depends on its rows only up to their order:
the header groups sorted lamports, and the interval join filters. Since a merge
appends the rows that verify, the order of merges is immaterial to every peer.
Merging an update again is not: it appends its valid messages once more.
-/

namespace Replikon

open Foundation MessagesTable

/-- Lists with the same members have the same least member. -/
theorem least_congr (left right : List Int) (same : ∀ value, value ∈ left ↔ value ∈ right) :
    left.min? = right.min? := by
  apply Option.ext
  intro value
  simp only [List.min?_eq_some_iff, same]

/-- Lists with the same members have the same greatest member. -/
theorem greatest_congr (left right : List Int) (same : ∀ value, value ∈ left ↔ value ∈ right) :
    left.max? = right.max? := by
  apply Option.ext
  intro value
  simp only [List.max?_eq_some_iff, same]

section Order

variable {left right : MessagesTable} (permuted : left.columns.Perm right.columns)
include permuted

/-- The islands of reordered rows are the same. -/
theorem islands_congr (island : Island) :
    island ∈ islands left.columns ↔ island ∈ islands right.columns := by
  have lamports := (permuted.filter fun row => row.author = island.author).map (·.lamport.toInt)
  have numbering := numbered_congr _ _ lamports
  rw [mem_islands, mem_islands, lamportsOf, lamportsOf, numbering]

/-- The header query sees no difference between reordered rows. -/
theorem header_rows_congr : left.headerRows = right.headerRows := by
  have keys : groups Island.key (islands left.columns) = groups Island.key (islands right.columns) :=
    groups_congr _ _ _ (islands_congr permuted)
  rw [headerRows, headerRows, keys]
  apply List.map_congr_left
  intro key _
  have members : ∀ lamport,
      lamport ∈ (group Island.key (islands left.columns) key).map (·.lamport) ↔
        lamport ∈ (group Island.key (islands right.columns) key).map (·.lamport) := by
    intro lamport
    simp only [List.mem_map, mem_group, islands_congr permuted]
  rw [headerRow, headerRow, least_congr _ _ members, greatest_congr _ _ members]

theorem table_headers_congr : tableHeaders left = tableHeaders right := by
  rw [tableHeaders, tableHeaders, header_rows_congr permuted]

end Order

namespace Log

variable {Signature : Type} (sodium : Sodium Signature)

/-- Reordered rows are selected in another order. -/
theorem selected_perm {left right : MessagesTable} (permuted : left.columns.Perm right.columns)
    (author : Text) (intervals : List Interval) :
    (selected left author intervals).Perm (selected right author intervals) := by
  have index : (left.indexed (some author)).Perm (right.indexed (some author)) :=
    (indexed_perm left author).trans
      ((permuted.filter _).trans (indexed_perm right author).symm)
  exact (joined_perm holds _ index).map _

/-- Conversions of reordered messages either all succeed or all stop. -/
theorem hand_out_perm {left right : List SignedChatMeesage} (permuted : left.Perm right) :
    Option.Rel List.Perm (left.mapM (handOut sodium)) (right.mapM (handOut sodium)) := by
  induction permuted with
  | nil => exact Option.Rel.some (List.Perm.refl [])
  | @cons signedMsg before after _ inductionHypothesis =>
    rw [List.mapM_cons, List.mapM_cons]
    generalize before.mapM (handOut sodium) = first at *
    generalize after.mapM (handOut sodium) = second at *
    cases handOut sodium signedMsg with
    | none => exact Option.Rel.none
    | some handed =>
      cases inductionHypothesis with
      | none => exact Option.Rel.none
      | some permuted => exact Option.Rel.some (permuted.cons handed)
  | swap first second rest =>
    simp only [List.mapM_cons]
    cases handOut sodium first with
    | none => cases handOut sodium second <;> exact Option.Rel.none
    | some firstHanded =>
      cases handOut sodium second with
      | none => exact Option.Rel.none
      | some secondHanded =>
        cases rest.mapM (handOut sodium) with
        | none => exact Option.Rel.none
        | some handed => exact Option.Rel.some (List.Perm.swap _ _ _)
  | @trans before between after _ _ firstHypothesis secondHypothesis =>
    generalize before.mapM (handOut sodium) = first at *
    generalize between.mapM (handOut sodium) = second at *
    generalize after.mapM (handOut sodium) = third at *
    cases firstHypothesis with
    | none => exact secondHypothesis
    | some first =>
      cases secondHypothesis with
      | some second => exact Option.Rel.some (first.trans second)

/-- The same messages under each author, in any order. -/
def SameMessages (left right : Update Signature) : Prop :=
  ∀ author, Option.Rel List.Perm (left.find author) (right.find author)

/-- Reordered tables hand out the same messages, or both stop. -/
theorem hand_out_all_perm {left right : MessagesTable} (permuted : left.columns.Perm right.columns)
    (entries : List (Text × List Interval)) (first second : Update Signature)
    (same : SameMessages first second) :
    Option.Rel SameMessages (handOutAll sodium left entries first)
      (handOutAll sodium right entries second) := by
  induction entries generalizing first second with
  | nil => exact Option.Rel.some same
  | cons entry rest inductionHypothesis =>
    obtain ⟨k, v⟩ := entry
    have conversions := hand_out_perm sodium (selected_perm permuted k v)
    rw [handOutAll, handOutAll]
    generalize (selected left k v).mapM (handOut sodium) = firstConverted at *
    generalize (selected right k v).mapM (handOut sodium) = secondConverted at *
    cases conversions with
    | none => exact Option.Rel.none
    | some converted =>
      apply inductionHypothesis
      intro author
      rw [SortedMap.find_insert, SortedMap.find_insert]
      by_cases own : author = k
      · rw [if_pos own, if_pos own]
        exact Option.Rel.some converted
      · rw [if_neg own, if_neg own]
        exact same author

/-- Two runs of `getUpdate` that a peer cannot tell apart: both stop for the same
reason, or they return the same messages under each author. -/
def SameUpdate : EStateM.Result Stop Replica (Update Signature) →
    EStateM.Result Stop Replica (Update Signature) → Prop
  | .ok left _, .ok right _ => SameMessages left right
  | .error left _, .error right _ => left = right
  | _, _ => False

/-- Merge updates one after another. -/
def mergeEach : List (Update Signature) → Program Unit
  | [] => pure ()
  | update :: rest => do
    let _ ← merge sodium update
    mergeEach rest

/-- Merging a list of updates appends what verifies of each. The keys do not
change, so the first replica decides. -/
theorem merge_each_run {replica : Replica} (reliable : replica.Reliable)
    (updates : List (Update Signature)) :
    (mergeEach sodium updates).run replica =
      .ok () (replica.store (updates.flatMap (acceptedRows sodium replica))) := by
  induction updates generalizing replica with
  | nil => rfl
  | cons update rest inductionHypothesis =>
    rw [mergeEach, bind_ok _ (merge_run reliable update), inductionHypothesis (reliable.store _),
      List.flatMap_cons, Replica.store_append]
    rfl

/-- Merging is order-independent: after any permutation of the updates the
header is the same, and every request is answered with the same messages. -/
theorem merge_order_independent (replica : Replica) (reliable : replica.Reliable)
    (first second : List (Update Signature)) (permuted : first.Perm second) :
    ∃ left right, (mergeEach sodium first).run replica = .ok () left ∧
      (mergeEach sodium second).run replica = .ok () right ∧
      (∃ header, getHeader.run left = .ok header left ∧ getHeader.run right = .ok header right) ∧
      ∀ request, SameUpdate ((getUpdate sodium request).run left)
        ((getUpdate sodium request).run right) := by
  let left := replica.store (first.flatMap (acceptedRows sodium replica))
  let right := replica.store (second.flatMap (acceptedRows sodium replica))
  have leftReliable : left.Reliable := reliable.store _
  have rightReliable : right.Reliable := reliable.store _
  have columns : left.messages.columns.Perm right.messages.columns := by
    rw [Replica.store_columns, Replica.store_columns]
    exact (permuted.flatMap_right _).append_left _
  refine ⟨left, right, merge_each_run sodium reliable first, merge_each_run sodium reliable second,
    ⟨tableHeaders left.messages, get_header_run leftReliable, ?_⟩, ?_⟩
  · rw [table_headers_congr columns]
    exact get_header_run rightReliable
  · intro request
    obtain ⟨_, leftRun⟩ := get_update_run sodium leftReliable request
    obtain ⟨_, rightRun⟩ := get_update_run sodium rightReliable request
    have handed := hand_out_all_perm sodium columns request.entries SortedMap.empty SortedMap.empty
      fun author => Option.Rel.none
    rw [leftRun, rightRun]
    generalize handOutAll sodium left.messages request.entries SortedMap.empty = leftHanded at *
    generalize handOutAll sodium right.messages request.entries SortedMap.empty = rightHanded at *
    cases handed with
    | none => rfl
    | some same => exact same

/-- A second update, with later messages of the same author. -/
def laterUpdate : Update Buffer :=
  let signed (message : ChatMessage) :=
    (Sodium.transparent.signDetached (Serde.chatMessage message) (sampleKey 1), message)
  SortedMap.empty.insert (ascii "a")
    [signed ⟨ascii "a", 4, 2, ascii "four"⟩, signed ⟨ascii "a", 2, 9, ascii "two"⟩]

/-- One that nobody has signed. -/
def unsignedUpdate : Update Buffer :=
  SortedMap.empty.insert (ascii "a") [([], ⟨ascii "a", 3, 1, ascii "three"⟩)]

theorem merge_order_independent_sample :
    ∃ left right,
      (mergeEach Sodium.transparent [sampleUpdate, laterUpdate, sampleUpdate]).run sampleReplica =
        .ok () left ∧
      (mergeEach Sodium.transparent [laterUpdate, sampleUpdate, sampleUpdate]).run sampleReplica =
        .ok () right ∧
      (∃ header, getHeader.run left = .ok header left ∧ getHeader.run right = .ok header right) ∧
      ∀ request, SameUpdate ((getUpdate Sodium.transparent request).run left)
        ((getUpdate Sodium.transparent request).run right) :=
  merge_order_independent Sodium.transparent sampleReplica rfl _ _ (List.Perm.swap _ _ _)

/-- Merging an update again, after any further merges, changes no message and
is reported as skipped. -/
def Remerges (replica : Replica) (update : Update Signature) (later : List (Update Signature)) :
    Prop :=
  ∃ before after, (mergeEach sodium (update :: later)).run replica = .ok () before ∧
    (merge sodium update).run before = .ok .skipped after ∧ after.messages = before.messages

/-- A merge of an update can be repeated without effect exactly when no message
of the update verifies. -/
theorem remerges_iff (replica : Replica) (reliable : replica.Reliable) (update : Update Signature)
    (later : List (Update Signature)) :
    Remerges sodium replica update later ↔ accepted sodium replica update = [] := by
  have first := merge_each_run sodium reliable (update :: later)
  generalize (update :: later).flatMap (acceptedRows sodium replica) = rows at first
  have second := @merge_run _ sodium _ (reliable.store rows) update
  have same : acceptedRows sodium (replica.store rows) update = acceptedRows sodium replica update :=
    rfl
  have count : accepted sodium (replica.store rows) update = accepted sodium replica update := rfl
  rw [same, count] at second
  constructor
  · rintro ⟨before, after, ran, again, unchanged⟩
    obtain rfl : replica.store rows = before := by
      rw [first] at ran
      injection ran
    obtain rfl : (replica.store rows).store (acceptedRows sodium replica update) = after := by
      rw [second] at again
      injection again
    have columns := congrArg MessagesTable.columns unchanged
    rw [Replica.store_columns] at columns
    have none : acceptedRows sodium replica update = [] := by simpa using columns
    exact List.map_eq_nil_iff.mp none
  · intro none
    refine ⟨replica.store rows, replica.store rows, first, ?_, rfl⟩
    have noRows : acceptedRows sodium replica update = [] := by rw [acceptedRows, none, List.map_nil]
    rw [second, none, noRows]
    rfl

theorem remerges_iff_sample :
    Remerges Sodium.transparent sampleReplica unsignedUpdate [sampleUpdate, laterUpdate] ∧
      ¬ Remerges Sodium.transparent sampleReplica laterUpdate [unsignedUpdate, sampleUpdate] := by
  constructor
  · exact (remerges_iff Sodium.transparent sampleReplica rfl _ _).mpr (by decide)
  · intro remerges
    have none := (remerges_iff Sodium.transparent sampleReplica rfl _ _).mp remerges
    exact absurd none (by decide +kernel)

/-- A valid message merged twice is stored twice. -/
theorem sample_update_not_idempotent :
    ¬ Remerges Sodium.transparent sampleReplica sampleUpdate [] := by
  rintro ⟨before, after, ran, again, _⟩
  have reliable : sampleReplica.Reliable := rfl
  rw [merge_each_run Sodium.transparent reliable] at ran
  injection ran with _ stored
  subst stored
  rw [merge_run (reliable.store _)] at again
  injection again with status _
  exact absurd status (by decide +kernel)

end Log

end Replikon
