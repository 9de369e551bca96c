import Replikon.Network.CausalDelivery
import Replikon.Refinement.Calls
import Replikon.Refinement.Durability
import Replikon.Refinement.RepeatedRows

/-!
# Messages travel whatever the order of the steps

The steps of pulls need not follow each other. Replicas answer requests of any kind
with updates, which stay in flight and may be merged by anyone, late, repeatedly or
never; between these steps come messages added and all other calls. Rows are at
replicas and in updates, and spread between both as gossip: an answer takes over
from its replica the rows that the request asks for, a merge takes over from its
update the rows that the puller can verify. A repeated merge stores rows again, so
the tables hold more than one of a row, but never a row that did not come this way.
-/

namespace Replikon.Network

open Foundation Foundation.Gossip MessagesTable

variable {ι : Type} {Signature : Type} (sodium : Sodium Signature) (layouts : KeysCrdt.Layouts)
  (name : ι → Author) (start : ι → Replica)

/-- The replicas and the updates that were sent. -/
structure Traffic (ι Signature : Type) where
  replicas : ι → Replica
  sent : List (Log.Update Signature)

/-- Whether a call may store messages. -/
def stores : Instance.Call Signature → Bool
  | .logMerge _ => true
  | .addNewMessage _ _ => true
  | _ => false

/-- What happens in the network. A request is given as it arrives, a sent update is
named by its place. The other calls are arbitrary. -/
inductive Occurrence (ι Signature : Type) where
  | add (author : ι) (given originTs : UInt64) (body : Text)
  | answer (source : ι) (request : Log.Request)
  | deliver (puller : ι) (place : Nat)
  | call (replica : ι) (call : Instance.Call Signature) (quiet : stores call = false)

/-- What one author adds in a run. -/
def voiced (author : ι) [DecidableEq ι] (occurrences : List (Occurrence ι Signature)) :
    List (UInt64 × Text) :=
  occurrences.filterMap fun
    | .add other _ originTs body => if other = author then some (originTs, body) else none
    | .answer _ _ => none
    | .deliver _ _ => none
    | .call _ _ _ => none

/-- Where rows are. -/
inductive Place (ι : Type) where
  | replica (here : ι)
  | update (place : Nat)

/-- The rows at a replica and in an update that was sent. -/
def held (traffic : Traffic ι Signature) : Place ι → Set MessageColumns
  | .replica here => {row | row ∈ (traffic.replicas here).messages.columns}
  | .update place => {row | ∃ update, traffic.sent[place]? = some update ∧
      row ∈ (Log.offers update).map (Log.Offer.row sodium)}

variable [DecidableEq ι]

/-- One step. A call may stop; what it leaves goes on. There is no step when the log
stops a replica as it adds, answers or merges. Where nothing was sent there is
nothing to merge. -/
def occur (traffic : Traffic ι Signature) :
    Occurrence ι Signature → Option (Traffic ι Signature)
  | .add author given originTs body =>
    match (Log.addNewMessage sodium (name author) ⟨name author, given, originTs, body⟩).run
        (traffic.replicas author) with
    | .ok _ after => some { traffic with replicas := Function.update traffic.replicas author after }
    | .error _ _ => none
  | .answer source request =>
    match (Log.getUpdate sodium request).run (traffic.replicas source) with
    | .ok update after =>
      some ⟨Function.update traffic.replicas source after, traffic.sent ++ [update]⟩
    | .error _ _ => none
  | .deliver puller place =>
    match traffic.sent[place]? with
    | some update =>
      match (Log.merge sodium update).run (traffic.replicas puller) with
      | .ok _ after =>
        some { traffic with replicas := Function.update traffic.replicas puller after }
      | .error _ _ => none
    | none => some traffic
  | .call replica call _ =>
    some { traffic with
      replicas := Function.update traffic.replicas replica
        ((call.program sodium layouts).leaves (traffic.replicas replica)) }

/-- What a step means for the spreading of rows. -/
def signalled (traffic : Traffic ι Signature) :
    Occurrence ι Signature → Option (Gossip.Event (Place ι) MessageColumns)
  | .add author given originTs body =>
    some (.born (.replica author) (Log.addedRow sodium (traffic.replicas author) (name author)
      ⟨name author, given, originTs, body⟩))
  | .answer source request =>
    some (.taken (.replica source) (.update traffic.sent.length) (Log.Asks request))
  | .deliver puller place =>
    some (.taken (.update place) (.replica puller)
      fun row => Log.ownSignature sodium (traffic.replicas puller) row = true)
  | .call _ _ _ => none

/-- The events of a run. -/
def signals (traffic : Traffic ι Signature) :
    List (Occurrence ι Signature) → List (Gossip.Event (Place ι) MessageColumns)
  | [] => []
  | occurrence :: rest =>
    (signalled sodium name traffic occurrence).toList ++
      match occur sodium layouts name traffic occurrence with
      | some next => signals next rest
      | none => []

omit [DecidableEq ι] in
/-- The offers of an update are filed under their authors and come from histories. -/
structure Proper (entries : ι → List (UInt64 × Text)) (update : Log.Update Signature) : Prop where
  filed : ∀ offer ∈ Log.offers update, offer.message.author = offer.key
  known : ∀ row ∈ (Log.offers update).map (Log.Offer.row sodium),
    ∃ author, row ∈ history sodium name start (entries author) author

omit [DecidableEq ι] in
/-- All rows are from histories, and an author has all of its own. -/
structure Flowing (entries : ι → List (UInt64 × Text)) (traffic : Traffic ι Signature) : Prop where
  reliable : ∀ replica, (traffic.replicas replica).Reliable
  privKey : ∀ replica, (traffic.replicas replica).selfPrivKey = (start replica).selfPrivKey
  known : ∀ replica, ∀ row ∈ (traffic.replicas replica).messages.columns,
    ∃ author, row ∈ history sodium name start (entries author) author
  own : ∀ author, ∀ row ∈ history sodium name start (entries author) author,
    row ∈ (traffic.replicas author).messages.columns
  sent : ∀ update ∈ traffic.sent, Proper sodium name start entries update

omit [DecidableEq ι] in
/-- The later replicas have the given further rows; their databases do not fail. -/
structure Gains (before after : ι → Replica) (rows : ι → List MessageColumns) : Prop where
  reliable : ∀ replica, (after replica).Reliable
  privKey : ∀ replica, (after replica).selfPrivKey = (before replica).selfPrivKey
  columns : ∀ replica, (after replica).messages.columns =
    (before replica).messages.columns ++ rows replica

variable {sodium name start} {entries more : ι → List (UInt64 × Text)}
  {traffic next : Traffic ι Signature} {rows : ι → List MessageColumns}

/-- One replica gains rows. -/
theorem gains_update (before : ι → Replica) (reliable : ∀ replica, (before replica).Reliable)
    (replica : ι) (after : Replica) (added : List MessageColumns) (afterReliable : after.Reliable)
    (privKey : after.selfPrivKey = (before replica).selfPrivKey)
    (columns : after.messages.columns = (before replica).messages.columns ++ added) :
    Gains before (Function.update before replica after)
      fun other => if other = replica then added else [] := by
  have each : ∀ other, (Function.update before replica after other).Reliable ∧
      (Function.update before replica after other).selfPrivKey = (before other).selfPrivKey ∧
      (Function.update before replica after other).messages.columns =
        (before other).messages.columns ++ if other = replica then added else [] := by
    intro other
    by_cases same : other = replica
    · rw [same, Function.update_self, if_pos rfl]
      exact ⟨afterReliable, privKey, columns⟩
    · rw [Function.update_of_ne same, if_neg same, List.append_nil]
      exact ⟨reliable other, rfl, rfl⟩
  exact ⟨fun other => (each other).1, fun other => (each other).2.1, fun other => (each other).2.2⟩

omit [DecidableEq ι] in
/-- What is held at a replica after it gained rows. -/
theorem Gains.held_iff (gains : Gains traffic.replicas next.replicas rows) (here : ι)
    (row : MessageColumns) :
    row ∈ held sodium next (.replica here) ↔
      row ∈ held sodium traffic (.replica here) ∨ row ∈ rows here := by
  have stored : row ∈ held sodium next (.replica here) ↔
      row ∈ (next.replicas here).messages.columns := Iff.rfl
  rw [stored, gains.columns here, List.mem_append]
  exact Iff.rfl

omit [DecidableEq ι] in
/-- A history stays in a longer one. -/
theorem history_subset (author : ι) (row : MessageColumns)
    (member : row ∈ history sodium name start (entries author) author) :
    row ∈ history sodium name start (entries author ++ more author) author := by
  rw [history, List.zipIdx_append, List.map_append]
  exact List.mem_append_left _ member

omit [DecidableEq ι] in
theorem Proper.extend {update : Log.Update Signature}
    (proper : Proper sodium name start entries update) :
    Proper sodium name start (fun author => entries author ++ more author) update := by
  refine ⟨proper.filed, fun row member => ?_⟩
  obtain ⟨author, listed⟩ := proper.known row member
  exact ⟨author, history_subset author row listed⟩

omit [DecidableEq ι] in
/-- A later state has the rows of the longer histories if its further rows are from
them and complete those of their authors. -/
theorem Flowing.extend (flowing : Flowing sodium name start entries traffic)
    (gains : Gains traffic.replicas next.replicas rows)
    (named : ∀ replica, ∀ row ∈ rows replica,
      ∃ author, row ∈ history sodium name start (entries author ++ more author) author)
    (own : ∀ author, ∀ row ∈ history sodium name start (entries author ++ more author) author,
      row ∈ history sodium name start (entries author) author ∨ row ∈ rows author)
    (sent : ∀ update ∈ next.sent,
      update ∈ traffic.sent ∨ Proper sodium name start entries update) :
    Flowing sodium name start (fun author => entries author ++ more author) next := by
  refine ⟨gains.reliable, ?_, ?_, ?_, ?_⟩
  · intro replica
    exact (gains.privKey replica).trans (flowing.privKey replica)
  · intro replica row member
    rw [gains.columns replica] at member
    rcases List.mem_append.mp member with old | new
    · obtain ⟨author, listed⟩ := flowing.known replica row old
      exact ⟨author, history_subset author row listed⟩
    · exact named replica row new
  · intro author row member
    rw [gains.columns author]
    rcases own author row member with old | new
    · exact List.mem_append_left _ (flowing.own author row old)
    · exact List.mem_append_right _ new
  · intro update member
    rcases sent update member with old | new
    · exact (flowing.sent update old).extend
    · exact new.extend

omit [DecidableEq ι] in
/-- Without new messages the histories stay. -/
theorem Flowing.keep (flowing : Flowing sodium name start entries traffic)
    (gains : Gains traffic.replicas next.replicas rows)
    (named : ∀ replica, ∀ row ∈ rows replica,
      ∃ author, row ∈ history sodium name start (entries author) author)
    (sent : ∀ update ∈ next.sent,
      update ∈ traffic.sent ∨ Proper sodium name start entries update) :
    Flowing sodium name start entries next := by
  have same : (fun author => entries author ++ ([] : List (UInt64 × Text))) = entries :=
    funext fun _ => List.append_nil _
  rw [← same]
  refine flowing.extend gains ?_ ?_ sent
  · simpa only [List.append_nil] using named
  · intro author row member
    rw [List.append_nil] at member
    exact .inl member

omit [DecidableEq ι] in
/-- Rows anywhere are from histories. -/
theorem Flowing.known_at (flowing : Flowing sodium name start entries traffic) (place : Place ι)
    (row : MessageColumns) (member : row ∈ held sodium traffic place) :
    ∃ author, row ∈ history sodium name start (entries author) author := by
  cases place with
  | replica here => exact flowing.known here row member
  | update place =>
    obtain ⟨update, found, offered⟩ := member
    exact (flowing.sent update (List.mem_of_getElem? found)).known row offered

section Steps

variable (flowing : Flowing sodium name start entries traffic) (cast : Cast name start)
  (limited : Limited entries)
include flowing cast limited

omit [DecidableEq ι] in
/-- Rows are read back as they were stored. -/
theorem Flowing.reads_back (replica : ι) :
    Log.ReadsBack sodium (traffic.replicas replica).messages := by
  have each : ∀ row ∈ (traffic.replicas replica).messages.columns,
      ((0 : Byte) ∉ row.author ∧ (0 : Byte) ∉ row.body) ∧
        (sodium.ofBytes row.signature).isSome := by
    intro row member
    obtain ⟨author, listed⟩ := flowing.known replica row member
    exact history_reads_back cast limited author row listed
  exact ⟨fun row member => (each row member).1, fun row member => (each row member).2⟩

omit [DecidableEq ι] in
/-- Two rows anywhere with the same author and lamport are one. -/
theorem Flowing.agree (place other : Place ι) (row second : MessageColumns)
    (here : row ∈ held sodium traffic place) (there : second ∈ held sodium traffic other)
    (same : row.identity = second.identity) : row = second := by
  obtain ⟨author, listed⟩ := flowing.known_at place row here
  obtain ⟨writer, listedThere⟩ := flowing.known_at other second there
  exact history_agree cast limited author writer row second listed listedThere same

omit [DecidableEq ι] in
/-- A new message gets the number after those that its author has added. -/
theorem Flowing.next_row (author : ι) (given originTs : UInt64) (body : Text) :
    Log.addedRow sodium (traffic.replicas author) (name author)
        ⟨name author, given, originTs, body⟩ =
      authoredRow sodium name start author ((originTs, body), (entries author).length + 1) := by
  have few := limited.few author
  have lamports := history_lamports sodium name start (entries author) author (by omega)
  have within : ∀ row ∈ (traffic.replicas author).messages.columns, row.author = name author →
      ∃ number, number ≤ (entries author).length ∧ row.lamport.toInt = Int.ofNat number := by
    intro row member named
    obtain ⟨writer, listed⟩ := flowing.known author row member
    have same : writer = author :=
      cast.distinct ((history_row limited writer row listed).1.symm.trans named)
    subst same
    have lamport : row.lamport.toInt ∈
        (history sodium name start (entries writer) writer).map (·.lamport.toInt) :=
      List.mem_map_of_mem listed
    rw [lamports] at lamport
    obtain ⟨number, ranged, equal⟩ := List.mem_map.mp lamport
    obtain ⟨_, high⟩ := List.mem_range'_1.mp ranged
    exact ⟨number, by omega, equal.symm⟩
  have reached : (entries author).length = 0 ∨
      ∃ row ∈ (traffic.replicas author).messages.columns, row.author = name author ∧
        row.lamport.toInt = Int.ofNat (entries author).length := by
    rcases Nat.eq_zero_or_pos (entries author).length with none | some
    · exact .inl none
    · have last : Int.ofNat (entries author).length ∈
          (history sodium name start (entries author) author).map (·.lamport.toInt) := by
        rw [lamports]
        exact List.mem_map_of_mem (List.mem_range'_1.mpr ⟨some, by omega⟩)
      obtain ⟨row, listed, lamport⟩ := List.mem_map.mp last
      exact .inr ⟨row, flowing.own author row listed, (history_row limited author row listed).1,
        lamport⟩
  have lamport := assigned_lamport_numbered (traffic.replicas author) (name author)
    (entries author).length (by omega) within reached
  rw [Log.addedRow, Log.assigned, lamport, flowing.privKey author]
  rfl

/-- An author that adds a message extends its history. -/
theorem Flowing.add (author : ι) (given originTs : UInt64) (body : Text) :
    ∃ next, occur sodium layouts name traffic (.add author given originTs body) = some next ∧
      Flowing sodium name start (fun other => entries other ++
        voiced other [(.add author given originTs body : Occurrence ι Signature)]) next ∧
      held sodium next = Gossip.spread (held sodium traffic)
        (signalled sodium name traffic (.add author given originTs body)).toList := by
  let new := Log.addedRow sodium (traffic.replicas author) (name author)
    ⟨name author, given, originTs, body⟩
  have numbered : new = authoredRow sodium name start author
      ((originTs, body), (entries author).length + 1) :=
    flowing.next_row cast limited author given originTs body
  have gains := gains_update traffic.replicas flowing.reliable author
    ((traffic.replicas author).store [new]) [new] ((flowing.reliable author).store _) rfl
    (Replica.store_columns _ _)
  have longer : history sodium name start (entries author ++
      voiced author [(.add author given originTs body : Occurrence ι Signature)]) author =
        history sodium name start (entries author) author ++ [new] := by
    rw [numbered]
    simpa [voiced] using history_append sodium name start (entries author) (originTs, body) author
  refine ⟨{ traffic with
    replicas := Function.update traffic.replicas author ((traffic.replicas author).store [new]) },
    ?_, flowing.extend gains ?_ ?_ fun update member => .inl member, ?_⟩
  · simp only [occur, Log.add_new_message_run (flowing.reliable author)]
    rfl
  · intro replica row member
    by_cases same : replica = author
    · rw [if_pos same, List.mem_singleton] at member
      refine ⟨author, ?_⟩
      rw [longer, member]
      exact List.mem_append_right _ (List.mem_singleton_self _)
    · rw [if_neg same] at member
      exact absurd member List.not_mem_nil
  · intro other row member
    by_cases same : other = author
    · subst same
      rw [longer] at member
      rw [if_pos rfl]
      exact List.mem_append.mp member
    · have none : voiced other [(.add author given originTs body : Occurrence ι Signature)] = [] := by
        simp [voiced, Ne.symm same]
      rw [none, List.append_nil] at member
      exact .inl member
  · funext place
    ext row
    cases place with
    | replica here =>
      rw [gains.held_iff]
      by_cases same : here = author <;> simp [signalled, Gossip.spread, spreadStep, same, new]
    | update place => simp [signalled, Gossip.spread, spreadStep, held]

omit cast limited in
/-- An answer is one more update in flight. -/
theorem held_answered (source : ι) (after : Replica) (update : Log.Update Signature)
    (afterReliable : after.Reliable)
    (privKey : after.selfPrivKey = (traffic.replicas source).selfPrivKey)
    (columns : after.messages.columns = (traffic.replicas source).messages.columns)
    (place : Place ι) (row : MessageColumns) :
    row ∈ held sodium
        ⟨Function.update traffic.replicas source after, traffic.sent ++ [update]⟩ place ↔
      row ∈ held sodium traffic place ∨ place = .update traffic.sent.length ∧
        row ∈ (Log.offers update).map (Log.Offer.row sodium) := by
  have gains := gains_update traffic.replicas flowing.reliable source after [] afterReliable privKey
    (columns.trans (List.append_nil _).symm)
  cases place with
  | replica here =>
    have none : ¬ (Place.replica here = .update traffic.sent.length ∧
        row ∈ (Log.offers update).map (Log.Offer.row sodium)) := fun impossible => by
      cases impossible.1
    rw [or_iff_left none, gains.held_iff, ite_self]
    exact or_iff_left List.not_mem_nil
  | update place =>
    rcases Nat.lt_trichotomy place traffic.sent.length with earlier | rfl | later
    · have different : place ≠ traffic.sent.length := Nat.ne_of_lt earlier
      simp [held, List.getElem?_append_left earlier, different]
    · simp [held]
    · have different : place ≠ traffic.sent.length := Nat.ne_of_gt later
      have beyond : (traffic.sent ++ [update])[place]? = none := by
        rw [List.getElem?_eq_none_iff, List.length_append, List.length_singleton]
        omega
      have before : traffic.sent[place]? = none := List.getElem?_eq_none_iff.mpr (by omega)
      simp [held, beyond, before, different]

/-- A replica answers any request with the rows that it asks for. -/
theorem Flowing.answer (source : ι) (request : Log.Request) :
    ∃ next, occur sodium layouts name traffic (.answer source request) = some next ∧
      Flowing sodium name start entries next ∧
      held sodium next = Gossip.spread (held sodium traffic)
        (signalled sodium name traffic (.answer source request)).toList := by
  have readsBack := flowing.reads_back cast limited source
  obtain ⟨update, searched, answered, filed, asked⟩ :=
    Log.get_update_asked (flowing.reliable source) readsBack request
  let after : Replica := { traffic.replicas source with searchIntervals := searched }
  have proper : Proper sodium name start entries update := by
    refine ⟨filed, fun row offered => ?_⟩
    exact flowing.known source row ((asked row).mp offered).1
  have gains := gains_update traffic.replicas flowing.reliable source after []
    (flowing.reliable source) rfl (List.append_nil _).symm
  refine ⟨⟨Function.update traffic.replicas source after, traffic.sent ++ [update]⟩, ?_,
    flowing.keep gains ?_ ?_, ?_⟩
  · simp only [occur, answered]
    rfl
  · intro replica row member
    rw [ite_self] at member
    exact absurd member List.not_mem_nil
  · intro other member
    rcases List.mem_append.mp member with old | new
    · exact .inl old
    · exact .inr (List.mem_singleton.mp new ▸ proper)
  · funext place
    ext row
    rw [held_answered flowing source after update (flowing.reliable source) rfl rfl, asked]
    exact Iff.rfl

omit cast limited in
/-- A replica merges of an update that was sent what it can verify. -/
theorem Flowing.deliver (puller : ι) (place : Nat) :
    ∃ next, occur sodium layouts name traffic (.deliver puller place) = some next ∧
      Flowing sodium name start entries next ∧
      held sodium next = Gossip.spread (held sodium traffic)
        (signalled sodium name traffic (.deliver puller place)).toList := by
  cases found : traffic.sent[place]? with
  | none =>
    refine ⟨traffic, by simp only [occur, found], flowing, ?_⟩
    funext here
    ext row
    simp [signalled, Gossip.spread, spreadStep, held, found]
  | some update =>
    have proper := flowing.sent update (List.mem_of_getElem? found)
    let taken := Log.acceptedRows sodium (traffic.replicas puller) update
    have accepted : ∀ row, row ∈ taken ↔
        row ∈ (Log.offers update).map (Log.Offer.row sodium) ∧
          Log.ownSignature sodium (traffic.replicas puller) row = true := by
      intro row
      rw [← List.mem_filter, ← Log.accepted_rows_of_filed proper.filed]
    have gains := gains_update traffic.replicas flowing.reliable puller
      ((traffic.replicas puller).store taken) taken ((flowing.reliable puller).store _) rfl
      (Replica.store_columns _ _)
    refine ⟨{ traffic with
      replicas := Function.update traffic.replicas puller ((traffic.replicas puller).store taken) },
      ?_, flowing.keep gains ?_ fun other member => .inl member, ?_⟩
    · simp only [occur, found, Log.merge_run (flowing.reliable puller) update]
      rfl
    · intro replica row member
      by_cases same : replica = puller
      · rw [if_pos same] at member
        exact proper.known row ((accepted row).mp member).1
      · rw [if_neg same] at member
        exact absurd member List.not_mem_nil
    · funext other
      ext row
      cases other with
      | replica here =>
        rw [gains.held_iff]
        by_cases same : here = puller
        · simp only [if_pos same, accepted row]
          simp [signalled, Gossip.spread, spreadStep, same, held, found]
        · simp [signalled, Gossip.spread, spreadStep, same]
      | update place => simp [signalled, Gossip.spread, spreadStep, held]

omit cast limited in
/-- The other calls store no messages. -/
theorem Flowing.call (replica : ι) (made : Instance.Call Signature) (quiet : stores made = false) :
    ∃ next, occur sodium layouts name traffic (.call replica made quiet) = some next ∧
      Flowing sodium name start entries next ∧ held sodium next = held sodium traffic := by
  have none : Instance.brings sodium (traffic.replicas replica) made = [] := by
    cases made <;> first | rfl | exact absurd quiet (by simp [stores])
  have columns := Instance.call_brings sodium layouts (flowing.reliable replica) made
  rw [none] at columns
  have kept := keeps_leaves (Instance.keeps_call sodium layouts made) (traffic.replicas replica)
  have gains := gains_update traffic.replicas flowing.reliable replica _ []
    (changes_reliable kept (flowing.reliable replica)) (changes_identity kept).2.2.2 columns
  refine ⟨_, rfl, flowing.keep gains ?_ fun update member => .inl member, ?_⟩
  · intro other row member
    rw [ite_self] at member
    exact absurd member List.not_mem_nil
  · funext place
    ext row
    cases place with
    | replica here =>
      rw [gains.held_iff, ite_self]
      exact or_iff_left List.not_mem_nil
    | update place => exact Iff.rfl

end Steps

/-- What an author adds in a run begins with what its first step adds. -/
theorem voiced_cons (author : ι) (occurrence : Occurrence ι Signature)
    (rest : List (Occurrence ι Signature)) :
    voiced author (occurrence :: rest) = voiced author [occurrence] ++ voiced author rest := by
  rw [voiced, voiced, voiced, ← List.filterMap_append]
  rfl

/-- A step goes through and spreads the rows as its event says. -/
theorem flowing_step (cast : Cast name start) (occurrence : Occurrence ι Signature)
    (limited : Limited fun author => entries author ++ voiced author [occurrence])
    (flowing : Flowing sodium name start entries traffic) :
    ∃ next, occur sodium layouts name traffic occurrence = some next ∧
      Flowing sodium name start (fun author => entries author ++ voiced author [occurrence]) next ∧
      held sodium next = Gossip.spread (held sodium traffic)
        (signalled sodium name traffic occurrence).toList := by
  have limitedNow : Limited entries := limited.of_append
  have silent : (∀ author, voiced author [occurrence] = []) →
      (fun author => entries author ++ voiced author [occurrence]) = entries := by
    intro none
    funext author
    rw [none author, List.append_nil]
  cases occurrence with
  | add author given originTs body =>
    exact flowing.add layouts cast limitedNow author given originTs body
  | answer source request =>
    rw [silent fun _ => rfl]
    exact flowing.answer layouts cast limitedNow source request
  | deliver puller place =>
    rw [silent fun _ => rfl]
    exact flowing.deliver layouts puller place
  | call replica made quiet =>
    rw [silent fun _ => rfl]
    exact flowing.call layouts replica made quiet

/-- Every run goes through and spreads the rows as its events say. The induction is
on the steps, from any state in which the histories so far flow. -/
theorem flowing_run (cast : Cast name start) (occurrences : List (Occurrence ι Signature))
    (limited : Limited fun author => entries author ++ voiced author occurrences)
    (flowing : Flowing sodium name start entries traffic) :
    ∃ final, run (occur sodium layouts name) traffic occurrences = some final ∧
      Flowing sodium name start (fun author => entries author ++ voiced author occurrences) final ∧
      held sodium final =
        Gossip.spread (held sodium traffic) (signals sodium layouts name traffic occurrences) := by
  induction occurrences generalizing traffic entries with
  | nil =>
    have same : (fun author => entries author ++
        voiced author ([] : List (Occurrence ι Signature))) = entries :=
      funext fun _ => List.append_nil _
    exact ⟨traffic, rfl, by rwa [same], rfl⟩
  | cons occurrence rest inductionHypothesis =>
    have grown : (fun author => entries author ++ voiced author (occurrence :: rest)) =
        fun author => (entries author ++ voiced author [occurrence]) ++ voiced author rest := by
      funext author
      rw [voiced_cons, List.append_assoc]
    rw [grown] at limited ⊢
    obtain ⟨next, stepped, flowingNext, spreads⟩ :=
      flowing_step layouts cast occurrence limited.of_append flowing
    obtain ⟨final, ran, flowingFinal, spreadsFinal⟩ := inductionHypothesis limited flowingNext
    refine ⟨final, ?_, flowingFinal, ?_⟩
    · rw [run, stepped]
      exact ran
    · rw [spreadsFinal, signals, Gossip.spread_append, stepped, spreads]

/-- The replicas before any step. -/
def quietStart (start : ι → Replica) : Traffic ι Signature := ⟨start, []⟩

omit [DecidableEq ι] in
theorem Flowing.initially (cast : Cast name start) :
    Flowing sodium name start (fun _ => []) (quietStart start) := by
  refine ⟨cast.reliable, fun _ => rfl, ?_, ?_, ?_⟩
  · intro replica row member
    rw [quietStart, cast.empty replica] at member
    exact absurd member List.not_mem_nil
  · intro author row member
    exact absurd member List.not_mem_nil
  · intro update member
    exact absurd member List.not_mem_nil

/-- Delivery is exactly causal whatever the order of the steps. In every run of
messages added, requests answered, sent updates merged by anyone and at any time, and
other calls, nothing stops the log; a replica stores a row exactly if it was added at
some author and a chain of later steps leads from there to the replica, through
updates whose request asked for the row and merges that verified it; and no two
replicas ever hold different messages under one author and lamport. -/
theorem any_order_delivers (sodium : Sodium Signature) (layouts : KeysCrdt.Layouts)
    (name : ι → Author) (start : ι → Replica) (cast : Cast name start)
    (occurrences : List (Occurrence ι Signature))
    (limited : Limited fun author => voiced author occurrences) :
    ∃ final, run (occur sodium layouts name) (quietStart start) occurrences = some final ∧
      (∀ replica row, row ∈ (final.replicas replica).messages.columns ↔ ∃ origin chain,
        (.born origin row :: chain).Sublist
            (signals sodium layouts name (quietStart start) occurrences) ∧
          Leads row origin chain (.replica replica)) ∧
      ∀ replica other, ∀ row ∈ (final.replicas replica).messages.columns,
        ∀ second ∈ (final.replicas other).messages.columns,
          row.identity = second.identity → row = second := by
  have initially : Flowing sodium name start (fun _ => []) (quietStart start) :=
    Flowing.initially cast
  obtain ⟨final, ran, flowing, spreads⟩ := flowing_run layouts cast occurrences limited initially
  refine ⟨final, ran, ?_, ?_⟩
  · intro replica row
    have nothing : held sodium (quietStart start) = fun _ => (∅ : Set MessageColumns) := by
      funext place
      ext row
      cases place with
      | replica here => simp [held, quietStart, cast.empty here]
      | update place => simp [held, quietStart]
    have stored : row ∈ (final.replicas replica).messages.columns ↔
        row ∈ held sodium final (.replica replica) := Iff.rfl
    rw [stored, spreads, nothing, mem_spread_empty_iff]
  · intro replica other row here second there
    exact flowing.agree cast limited (.replica replica) (.replica other) row second here there

/-- A request for the first message of `a`. -/
def firstAsked : Log.Request := SortedMap.empty.insert (ascii "a") [⟨1, 1⟩]

/-- The other replica is given the key of `a`. -/
def keyGiven : Occurrence Bool Buffer :=
  .call false (.setAdmin (sampleName true) (Sodium.transparent.publicKey (samplePrivKey true))) rfl

/-- The second message is added while the first is asked for, and the answer arrives
before the key of its author and once more after it. -/
def crossedRun : List (Occurrence Bool Buffer) :=
  [.add true 0 5 (ascii "hi"), .add true 0 6 (ascii "you"), .answer true firstAsked,
    .deliver false 0, keyGiven, .deliver false 0]

theorem crossed_run_limited : Limited fun author => voiced author crossedRun := by
  refine ⟨?_, ?_⟩ <;> intro author <;> cases author <;> decide

theorem any_order_delivers_sample :
    ∃ final, run (occur Sodium.transparent KeysCrdt.sampleLayouts sampleName)
        (quietStart strangers) crossedRun = some final ∧
      (∀ replica row, row ∈ (final.replicas replica).messages.columns ↔ ∃ origin chain,
        (.born origin row :: chain).Sublist
            (signals Sodium.transparent KeysCrdt.sampleLayouts sampleName (quietStart strangers)
              crossedRun) ∧
          Leads row origin chain (.replica replica)) ∧
      ∀ replica other, ∀ row ∈ (final.replicas replica).messages.columns,
        ∀ second ∈ (final.replicas other).messages.columns,
          row.identity = second.identity → row = second :=
  any_order_delivers Sodium.transparent KeysCrdt.sampleLayouts sampleName strangers strangers_cast
    crossedRun crossed_run_limited

end Replikon.Network
