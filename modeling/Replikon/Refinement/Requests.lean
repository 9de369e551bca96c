import Replikon.Refinement.Headers
import Replikon.Refinement.Merge

/-!
# What is asked for and what is handed out

`getRequest` sweeps every list of the remote header against the local one.
`getUpdate` joins the table with the intervals of the request; for disjoint
intervals the join delivers every row of the author at most once.
-/

namespace Replikon

open Foundation

/-- The bits of an unsigned number read as a signed cell. -/
theorem signed_value (value : UInt64) :
    value.toInt64.toInt =
      if value.toNat < 2 ^ 63 then (value.toNat : Int) else (value.toNat : Int) - 2 ^ 64 := by
  have bound := value.toNat_lt
  have back := unsigned_value value.toInt64
  have same : value.toInt64.toUInt64 = value := UInt64.toUInt64_toInt64 value
  have lower := value.toInt64.le_toInt
  have upper := value.toInt64.toInt_lt
  rw [same] at back
  norm_num at *
  split at back <;> split <;> omega

/-- The intervals end within the range of signed cells. -/
def Storable (intervals : List Interval) : Prop :=
  ∀ interval ∈ intervals, interval.start.toNat + interval.len.toNat ≤ 2 ^ 63

/-- The bounds of a nonempty storable interval, read as signed cells, hold
exactly the numbers of its span. -/
theorem bounds_hold (interval : Interval) (nonempty : 0 < interval.len.toNat)
    (storable : interval.start.toNat + interval.len.toNat ≤ 2 ^ 63) (lamport : Int) :
    ((MessagesDao.bounds interval).1.toInt ≤ lamport ∧
        lamport ≤ (MessagesDao.bounds interval).2.toInt) ↔
      0 ≤ lamport ∧ Spans.Within interval.span lamport.toNat := by
  have last := interval.last_exact nonempty (by omega)
  have start : (MessagesDao.bounds interval).1.toInt = interval.start.toNat := by
    rw [MessagesDao.bounds, signed_value, if_pos (by omega)]
  have finish : (MessagesDao.bounds interval).2.toInt = interval.last.toNat := by
    have lastBound : interval.last.toNat < 2 ^ 63 := by omega
    change interval.last.toInt64.toInt = _
    rw [signed_value, if_pos lastBound]
  rw [start, finish, Spans.Within, Interval.span]
  simp only
  omega

/-- A message meets one row of the temporary table when the intervals cover its
lamport, and none otherwise. -/
theorem matches_once (intervals : List Interval) (wellFormed : WellFormed intervals)
    (storable : Storable intervals) (row : MessageColumns) (wanted : Bool)
    (agrees : wanted = true ↔
      0 ≤ row.lamport.toInt ∧ row.lamport.toInt.toNat ∈ covered intervals) :
    (intervals.map MessagesDao.bounds).countP (MessagesTable.holds · row) =
      if wanted then 1 else 0 := by
  have spans : (intervals.map MessagesDao.bounds).countP (MessagesTable.holds · row) =
      (intervals.filter fun interval => 0 ≤ row.lamport.toInt ∧
        interval.span.1 ≤ row.lamport.toInt.toNat ∧
          row.lamport.toInt.toNat < interval.span.2).length := by
    rw [List.countP_eq_length_filter, List.filter_map, List.length_map]
    congr 1
    apply List.filter_congr
    intro interval member
    have hold := bounds_hold interval (wellFormed.len_pos interval member)
      (storable interval member) row.lamport.toInt
    exact decide_eq_decide.mpr (by simpa only [Spans.Within] using hold)
  generalize row.lamport.toInt = lamport at agrees spans ⊢
  rw [spans]
  by_cases nonnegative : 0 ≤ lamport
  · have within : (intervals.filter fun interval =>
        0 ≤ lamport ∧ interval.span.1 ≤ lamport.toNat ∧ lamport.toNat < interval.span.2).length =
          ((intervals.map Interval.span).filter fun span =>
            span.1 ≤ lamport.toNat ∧ lamport.toNat < span.2).length := by
      rw [List.filter_map, List.length_map]
      simp [nonnegative, Function.comp_def]
    rw [within]
    by_cases inside : lamport.toNat ∈ covered intervals
    · rw [if_pos (agrees.mpr ⟨nonnegative, inside⟩)]
      exact Spans.within_once _ wellFormed.ascending _ inside
    · rw [if_neg fun holds => inside (agrees.mp holds).2]
      exact Spans.within_never _ _ inside
  · rw [if_neg fun holds => nonnegative (agrees.mp holds).1]
    simp [nonnegative]

/-- The index holds the messages of its author. -/
theorem indexed_perm (table : MessagesTable) (author : Text) :
    (table.indexed (some author)).Perm (table.columns.filter fun row => row.author = author) := by
  refine (List.perm_insertionSort _ _).trans (List.Perm.of_eq ?_)
  simp only [Option.some.injEq]

/-- A message is delivered exactly when it is one of the author's and its lamport
lies between the bounds of some interval. -/
theorem mem_by_intervals (table : MessagesTable) (author : Text) (intervals : List Interval)
    (row : MessageColumns) :
    row ∈ table.byIntervals (some author) (intervals.map MessagesDao.bounds) ↔
      row ∈ table.columns ∧ row.author = author ∧ ∃ interval ∈ intervals,
        (MessagesDao.bounds interval).1.toInt ≤ row.lamport.toInt ∧
          row.lamport.toInt ≤ (MessagesDao.bounds interval).2.toInt := by
  rw [MessagesTable.byIntervals, mem_joined, (indexed_perm table author).mem_iff, List.mem_filter,
    decide_eq_true_eq, and_assoc]
  simp only [List.mem_map, exists_exists_and_eq_and, MessagesTable.holds, decide_eq_true_eq]

/-- For well-formed storable intervals the query delivers the messages of the
author whose lamports the intervals cover, each once. -/
theorem by_intervals_exact (table : MessagesTable) (author : Text) (intervals : List Interval)
    (wellFormed : WellFormed intervals) (storable : Storable intervals)
    (wanted : MessageColumns → Bool)
    (agrees : ∀ row ∈ table.columns, row.author = author →
      (wanted row = true ↔
        0 ≤ row.lamport.toInt ∧ row.lamport.toInt.toNat ∈ covered intervals)) :
    (table.byIntervals (some author) (intervals.map MessagesDao.bounds)).Perm
      (table.columns.filter fun row => row.author = author ∧ wanted row) := by
  have own := indexed_perm table author
  have once : ∀ row ∈ table.indexed (some author),
      (intervals.map MessagesDao.bounds).countP (MessagesTable.holds · row) =
        if wanted row then 1 else 0 := by
    intro row member
    obtain ⟨present, authored⟩ := List.mem_filter.mp (own.mem_iff.mp member)
    exact matches_once intervals wellFormed storable row (wanted row)
      (agrees row present (of_decide_eq_true authored))
  refine (joined_once MessagesTable.holds _ _ wanted once).trans ((own.filter wanted).trans ?_)
  rw [List.filter_filter]
  refine List.Perm.of_eq (List.filter_congr ?_)
  intro row _
  cases wanted row <;> simp

namespace Log

variable {Signature : Type} (sodium : Sodium Signature)

section Request

variable {replica : Replica} (reliable : replica.Reliable)
include reliable

theorem get_header_run : getHeader.run replica = .ok (tableHeaders replica.messages) replica := by
  rw [getHeader, bind_ok _ (MessagesDao.get_headers_run reliable)]
  rfl

/-- The lists of an entry pass the guard of the sweep, or the build has no guard. -/
def Passes (replica : Replica) (localHeader : Header) (entry : Text × List Interval) : Prop :=
  (replica.ndebug || (isMonotonicNonColliding entry.2 &&
    isMonotonicNonColliding ((localHeader.find entry.1).getD []))) = true

omit reliable in
/-- The loop assigns to every remote author the swept list. It stops at the
first entry that does not pass. -/
theorem request_entries_run (localHeader : Header) (entries : List (Text × List Interval))
    (result : Request) :
    ((∀ entry ∈ entries, Passes replica localHeader entry) ∧
      (requestEntries localHeader entries result).run replica =
        .ok (SortedMap.assignAll (fun k v => sweepAll v ((localHeader.find k).getD []))
          entries result) replica) ∨
    ((∃ entry ∈ entries, ¬ Passes replica localHeader entry) ∧
      (requestEntries localHeader entries result).run replica = .error .assertion replica) := by
  induction entries generalizing result with
  | nil => exact .inl ⟨by simp, rfl⟩
  | cons entry rest inductionHypothesis =>
    have difference := intervals_difference_run replica entry.2 ((localHeader.find entry.1).getD [])
    by_cases passes : Passes replica localHeader entry
    · unfold Passes at passes
      rw [if_pos passes] at difference
      rw [requestEntries, bind_ok _ difference]
      rcases inductionHypothesis (result.insert entry.1
          (sweepAll entry.2 ((localHeader.find entry.1).getD []))) with ⟨all, ran⟩ | ⟨one, ran⟩
      · refine .inl ⟨?_, ran⟩
        intro other member
        rcases List.mem_cons.mp member with rfl | later
        · exact passes
        · exact all other later
      · obtain ⟨other, member, fails⟩ := one
        exact .inr ⟨⟨other, List.mem_cons_of_mem _ member, fails⟩, ran⟩
    · unfold Passes at passes
      rw [if_neg passes] at difference
      rw [requestEntries, bind_error _ difference]
      exact .inr ⟨⟨entry, List.mem_cons_self, passes⟩, rfl⟩

/-- The request holds the difference of the remote and the local lists, or the
replica stops at an entry that does not pass. -/
theorem get_request_cases (header : Header) :
    ((∀ entry ∈ header.entries, Passes replica (tableHeaders replica.messages) entry) ∧
      (getRequest header).run replica =
        .ok (header.mapValues fun k v =>
          sweepAll v (((tableHeaders replica.messages).find k).getD [])) replica) ∨
    ((∃ entry ∈ header.entries, ¬ Passes replica (tableHeaders replica.messages) entry) ∧
      (getRequest header).run replica = .error .assertion replica) := by
  rw [getRequest, bind_ok _ (MessagesDao.get_headers_run reliable), bind_ok _ (value_of_run _),
    ← SortedMap.assign_all_entries]
  exact request_entries_run (tableHeaders replica.messages) header.entries SortedMap.empty

/-- When every list of the remote header and the local list of the same author
pass the guard, the request holds their difference. -/
theorem get_request_run (header : Header)
    (monotonic : ∀ entry ∈ header.entries, isMonotonicNonColliding entry.2 = true ∧
      isMonotonicNonColliding (((tableHeaders replica.messages).find entry.1).getD []) = true) :
    (getRequest header).run replica =
      .ok (header.mapValues fun k v =>
        sweepAll v (((tableHeaders replica.messages).find k).getD [])) replica := by
  rcases get_request_cases reliable header with ⟨_, ran⟩ | ⟨⟨entry, member, fails⟩, _⟩
  · exact ran
  · obtain ⟨remote, stored⟩ := monotonic entry member
    exact absurd (by simp [Passes, remote, stored]) fails

end Request

/-- A stored message as it is handed out. There is nothing to hand out when the
stored signature has no reading. -/
def handOut (signedMsg : SignedChatMeesage) : Option (Signature × ChatMessage) :=
  (sodium.ofBytes signedMsg.sign).map fun signature => (signature, signedMsg.msg)

/-- The rows that are read for one entry of a request. -/
def selected (table : MessagesTable) (author : Text) (intervals : List Interval) :
    List SignedChatMeesage :=
  (table.byIntervals (some author) (intervals.map MessagesDao.bounds)).map MessagesDao.fromRow

/-- What is handed out for the entries of a request, unless a stored signature
has no reading. -/
def handOutAll (table : MessagesTable) :
    List (Text × List Interval) → Update Signature → Option (Update Signature)
  | [], update => some update
  | (k, v) :: rest, update =>
    ((selected table k v).mapM (handOut sodium)).bind fun converted =>
      handOutAll table rest (update.insert k converted)

/-- The conversion stops at a signature without a reading. -/
theorem convert_run (replica : Replica) (messages : List SignedChatMeesage) :
    (convert sodium messages).run replica =
      match messages.mapM (handOut sodium) with
      | some converted => .ok converted replica
      | none => .error .undefined replica := by
  induction messages with
  | nil => rfl
  | cons signedMsg rest inductionHypothesis =>
    rw [convert, List.mapM_cons, handOut]
    cases read : sodium.ofBytes signedMsg.sign with
    | none =>
      have stopped : (copySignature sodium signedMsg.sign).run replica =
          .error .undefined replica := by
        rw [copySignature, read]
        rfl
      rw [bind_error _ stopped]
      rfl
    | some signature =>
      have copied : (copySignature sodium signedMsg.sign).run replica = .ok signature replica := by
        rw [copySignature, read]
        rfl
      rw [bind_ok _ copied]
      cases converted : rest.mapM (handOut sodium) with
      | none =>
        rw [converted] at inductionHypothesis
        rw [bind_error _ inductionHypothesis]
        rfl
      | some later =>
        rw [converted] at inductionHypothesis
        rw [bind_ok _ inductionHypothesis]
        rfl

/-- An update is read from the messages alone. Only the temporary table of
search intervals changes. -/
theorem update_entries_run {replica : Replica} (reliable : replica.Reliable)
    (entries : List (Text × List Interval)) (update : Update Signature) :
    ∃ searched, (updateEntries sodium entries update).run replica =
      match handOutAll sodium replica.messages entries update with
      | some update => .ok update { replica with searchIntervals := searched }
      | none => .error .undefined { replica with searchIntervals := searched } := by
  induction entries generalizing replica update with
  | nil => exact ⟨replica.searchIntervals, rfl⟩
  | cons entry rest inductionHypothesis =>
    obtain ⟨k, v⟩ := entry
    let read : Replica := { replica with searchIntervals := v.map MessagesDao.bounds }
    have readReliable : read.Reliable := reliable
    have rows : (MessagesDao.getAllMessages k v).run replica =
        .ok (.ok (selected replica.messages k v)) read := by
      rw [MessagesDao.get_all_messages_run reliable, selected]
    rw [updateEntries, bind_ok _ rows, handOutAll]
    simp only []
    have conversion := convert_run sodium read (selected replica.messages k v)
    cases converted : (selected replica.messages k v).mapM (handOut sodium) with
    | none =>
      rw [converted] at conversion
      rw [bind_error _ conversion]
      exact ⟨_, rfl⟩
    | some messages =>
      rw [converted] at conversion
      rw [bind_ok _ conversion]
      exact inductionHypothesis readReliable (update.insert k messages)

theorem get_update_run {replica : Replica} (reliable : replica.Reliable) (request : Request) :
    ∃ searched, (getUpdate sodium request).run replica =
      match handOutAll sodium replica.messages request.entries SortedMap.empty with
      | some update => .ok update { replica with searchIntervals := searched }
      | none => .error .undefined { replica with searchIntervals := searched } :=
  update_entries_run sodium reliable request.entries SortedMap.empty

/-- Offering a header changes nothing. -/
theorem get_header_leaves {replica : Replica} (reliable : replica.Reliable) :
    getHeader.leaves replica = replica := by
  rw [Program.leaves, get_header_run reliable]

/-- Asking changes nothing, also when it stops. -/
theorem get_request_leaves {replica : Replica} (reliable : replica.Reliable) (header : Header) :
    (getRequest header).leaves replica = replica := by
  rcases get_request_cases reliable header with ⟨_, ran⟩ | ⟨_, ran⟩ <;> rw [Program.leaves, ran]

/-- Handing out changes the search intervals only, also when it stops. -/
theorem get_update_leaves {replica : Replica} (reliable : replica.Reliable) (request : Request) :
    ∃ searched, (getUpdate sodium request).leaves replica =
      { replica with searchIntervals := searched } := by
  obtain ⟨searched, ran⟩ := get_update_run sodium reliable request
  refine ⟨searched, ?_⟩
  rw [Program.leaves, ran]
  cases handOutAll sodium replica.messages request.entries SortedMap.empty <;> rfl

/-- Every stored signature has a reading. -/
def Readable (table : MessagesTable) : Prop :=
  ∀ row ∈ table.columns, (sodium.ofBytes row.signature).isSome

variable {sodium}

/-- Messages whose signatures have readings are all converted. -/
theorem map_hand_out (messages : List SignedChatMeesage)
    (readable : ∀ signedMsg ∈ messages, (sodium.ofBytes signedMsg.sign).isSome) :
    messages.mapM (handOut sodium) = some (messages.filterMap (handOut sodium)) := by
  induction messages with
  | nil => rfl
  | cons signedMsg rest inductionHypothesis =>
    obtain ⟨signature, read⟩ :=
      Option.isSome_iff_exists.mp (readable signedMsg List.mem_cons_self)
    have handed : handOut sodium signedMsg = some (signature, signedMsg.msg) := by
      rw [handOut, read]
      rfl
    rw [List.mapM_cons, List.filterMap_cons, handed,
      inductionHypothesis fun other member => readable other (List.mem_cons_of_mem _ member)]
    rfl

/-- A row that is read for an entry is a stored one. -/
theorem mem_selected (table : MessagesTable) (author : Text) (intervals : List Interval)
    (signedMsg : SignedChatMeesage) (member : signedMsg ∈ selected table author intervals) :
    ∃ row ∈ table.columns, row.author = author ∧ MessagesDao.fromRow row = signedMsg := by
  obtain ⟨row, delivered, rfl⟩ := List.mem_map.mp member
  obtain ⟨present, own, _⟩ := (mem_by_intervals table author _ row).mp delivered
  exact ⟨row, present, own, rfl⟩

/-- When all stored signatures have readings, every entry of a request gets its rows. -/
theorem hand_out_all_readable (table : MessagesTable) (readable : Readable sodium table)
    (entries : List (Text × List Interval)) (update : Update Signature) :
    handOutAll sodium table entries update =
      some (SortedMap.assignAll
        (fun k v => (selected table k v).filterMap (handOut sodium)) entries update) := by
  induction entries generalizing update with
  | nil => rfl
  | cons entry rest inductionHypothesis =>
    have readings : ∀ signedMsg ∈ selected table entry.1 entry.2,
        (sodium.ofBytes signedMsg.sign).isSome := by
      intro signedMsg member
      obtain ⟨row, present, _, rfl⟩ := mem_selected table _ _ signedMsg member
      exact readable row present
    rw [handOutAll, map_hand_out _ readings, Option.bind_some]
    exact inductionHypothesis _

end Log

end Replikon
