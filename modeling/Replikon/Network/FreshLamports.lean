import Replikon.Network.HeaderSafety

/-!
# Whether the next lamport is a larger one

Messages carry unsigned lamports; the table holds their bits as signed numbers,
and the greatest signed one decides what comes next. The next lamport exceeds
all stored ones as long as signed and unsigned order agree on them and there is
a number left behind the greatest. A peer that signs a message with one of the
last lamports takes that away.
-/

namespace Replikon

open Foundation MessagesTable

/-- Lamports below `2^63 - 1`, in the signed cells that hold them. -/
def Low (lamports : List Int) : Prop := ∀ lamport ∈ lamports, 0 ≤ lamport ∧ lamport < 2 ^ 63 - 1

/-- Lamports from `2^63` on and below `2^64 - 1`, in the signed cells that hold them. -/
def High (lamports : List Int) : Prop := ∀ lamport ∈ lamports, lamport < -1

/-- The lamports are all low or all high. -/
def Roomy (lamports : List Int) : Prop := Low lamports ∨ High lamports

theorem roomy_nil : Roomy [] := .inl (by simp [Low])

/-- Only which lamports there are matters. -/
theorem roomy_congr {left right : List Int} (same : ∀ lamport, lamport ∈ left ↔ lamport ∈ right) :
    Roomy left ↔ Roomy right := by
  simp only [Roomy, Low, High, same]

/-- A signed cell read as the unsigned number of a message. -/
def unsignedOf (value : Int) : Int := if 0 ≤ value then value else value + 2 ^ 64

theorem unsigned_of_nonneg (value : Int) (nonnegative : 0 ≤ value) : unsignedOf value = value :=
  if_pos nonnegative

theorem unsigned_of_neg (value : Int) (negative : value < 0) : unsignedOf value = value + 2 ^ 64 :=
  if_neg (by omega)

/-- The number after a stored lamport, as it is read back: the last signed one
has none after it. -/
def numberAfter (lamport : Int) : Int := min (lamport + 1) (2 ^ 63 - 1)

theorem number_after_room (lamport : Int) (room : lamport < 2 ^ 63 - 1) :
    numberAfter lamport = lamport + 1 :=
  min_eq_left (by omega)

theorem number_after_full (lamport : Int) (full : lamport = 2 ^ 63 - 1) :
    numberAfter lamport = lamport := by
  rw [numberAfter, min_eq_right (by omega), full]

/-- The number after the greatest of some lamports exceeds all of them exactly
when they are roomy. The greatest one decides which of the two kinds they are. -/
theorem number_after_exceeds_iff (lamports : List Int)
    (fits : ∀ lamport ∈ lamports, Sql.Fits lamport) (greatest : Int) (stored : greatest ∈ lamports)
    (bound : ∀ lamport ∈ lamports, lamport ≤ greatest) :
    (∀ lamport ∈ lamports, unsignedOf lamport < unsignedOf (numberAfter greatest)) ↔
      Roomy lamports := by
  constructor
  · intro exceeds
    have last := exceeds greatest stored
    have upper := (fits greatest stored).2
    have room : greatest < 2 ^ 63 - 1 := by
      by_contra full
      rw [number_after_full greatest (by omega)] at last
      exact absurd last (lt_irrefl _)
    rw [number_after_room greatest room] at exceeds last
    by_cases nonnegative : 0 ≤ greatest
    · refine .inl fun lamport member => ⟨?_, by have order := bound lamport member; omega⟩
      by_contra negative
      have below := exceeds lamport member
      have lower := (fits lamport member).1
      rw [unsigned_of_neg lamport (by omega), unsigned_of_nonneg _ (by omega)] at below
      omega
    · refine .inr fun lamport member => ?_
      have order := bound lamport member
      by_contra wraps
      rw [unsigned_of_neg greatest (by omega), unsigned_of_nonneg _ (by omega)] at last
      omega
  · rintro (low | high) lamport member
    · have order := bound lamport member
      have inside := low lamport member
      rw [number_after_room greatest (low greatest stored).2, unsigned_of_nonneg _ inside.1,
        unsigned_of_nonneg _ (by omega)]
      omega
    · have order := bound lamport member
      have inside := high lamport member
      have room := high greatest stored
      rw [number_after_room greatest (by omega), unsigned_of_neg _ (by omega),
        unsigned_of_neg _ (by omega)]
      omega

/-- The number after a lamport keeps some lamports low, or keeps them high. -/
theorem roomy_cons_iff (lamport : Int) (fits : Sql.Fits lamport) (lamports : List Int) :
    Roomy (numberAfter lamport :: lamports) ↔
      (-1 ≤ lamport ∧ lamport < 2 ^ 63 - 2 ∧ Low lamports) ∨ (lamport < -2 ∧ High lamports) := by
  obtain ⟨lower, upper⟩ := fits
  simp only [Roomy, Low, High, numberAfter, List.forall_mem_cons]
  refine or_congr ?_ ?_
  · rw [← and_assoc]
    exact and_congr_left fun _ => by omega
  · exact and_congr_left fun _ => by omega

theorem next_lamport_value (table : MessagesTable) (author : Text) :
    (Sql.toInt64 (table.nextLamport (some author))).toInt =
      numberAfter (greatestLamport table author) := by
  obtain ⟨_, upper⟩ := greatest_lamport_fits table author
  by_cases room : greatestLamport table author < 2 ^ 63 - 1
  · rw [next_lamport_exact table author room, number_after_room _ room]
  · have full : greatestLamport table author = 2 ^ 63 - 1 := by omega
    have last : Int64.maxValue.toInt = 2 ^ 63 - 1 := by decide
    rw [next_lamport_clamped table author full, number_after_full _ full, last, full]

/-- The next lamport of the author exceeds every stored one, as an unsigned number. -/
def NextIsLarger (replica : Replica) (author : Author) : Prop :=
  ∃ next, (MessagesDao.getNextLamport author).run replica = .ok (.ok next) replica ∧
    ∀ row ∈ replica.messages.columns, row.author = author → row.lamport.toUInt64 < next

/-- A message that is added under its own author's name gets a lamport that no
stored message of the author has. -/
def AddsNew {Signature : Type} (sodium : Sodium Signature) (replica : Replica) (author : Author) :
    Prop :=
  ∀ message : ChatMessage, message.author = author → ∃ row after,
    (Log.addNewMessage sodium author message).run replica = .ok () after ∧
    after.messages.columns = replica.messages.columns ++ [row] ∧ row.author = author ∧
    ∀ stored ∈ replica.messages.columns, stored.author = author → stored.lamport ≠ row.lamport

section Next

variable {replica : Replica} (reliable : replica.Reliable) (author : Author)
include reliable

/-- The next lamport is larger exactly when the stored ones are roomy. -/
theorem next_is_larger_iff :
    NextIsLarger replica author ↔ Roomy (lamportsOf replica.messages.columns author) := by
  have ran := MessagesDao.get_next_lamport_run reliable author
  have next := unsigned_value (Sql.toInt64 (replica.messages.nextLamport (some author)))
  rw [next_lamport_value] at next
  have larger : NextIsLarger replica author ↔
      ∀ lamport ∈ lamportsOf replica.messages.columns author,
        unsignedOf lamport <
          unsignedOf (numberAfter (greatestLamport replica.messages author)) := by
    constructor
    · rintro ⟨value, returned, exceeds⟩ lamport stored
      obtain ⟨row, member, same, rfl⟩ := (mem_lamports_of _ _ _).mp stored
      rw [ran] at returned
      cases returned
      have below := UInt64.lt_iff_toNat_lt.mp (exceeds row member same)
      have unsigned := unsigned_value row.lamport
      rw [unsignedOf, unsignedOf, ← unsigned, ← next]
      exact_mod_cast below
    · intro exceeds
      refine ⟨_, ran, fun row member same => UInt64.lt_iff_toNat_lt.mpr ?_⟩
      have below := exceeds _ ((mem_lamports_of _ _ _).mpr ⟨row, member, same, rfl⟩)
      have unsigned := unsigned_value row.lamport
      rw [unsignedOf, unsignedOf, ← unsigned, ← next] at below
      exact_mod_cast below
  rw [larger]
  rcases greatest_lamport_cases replica.messages author with ⟨none, _⟩ | ⟨stored, bound⟩
  · simp [none, roomy_nil]
  · exact number_after_exceeds_iff _ (lamports_fit _ _) _ stored bound

/-- Then an added message has a new lamport. -/
theorem NextIsLarger.adds_new {Signature : Type} (sodium : Sodium Signature)
    (larger : NextIsLarger replica author) : AddsNew sodium replica author := by
  intro message own
  obtain ⟨next, returned, exceeds⟩ := larger
  rw [MessagesDao.get_next_lamport_run reliable author] at returned
  refine ⟨_, _, Log.add_new_message_run reliable author message, Replica.store_columns _ _, own, ?_⟩
  intro stored member same again
  have below := exceeds stored member same
  rw [again, Log.added_row_lamport] at below
  cases returned
  exact absurd below (UInt64.lt_irrefl _)

end Next

namespace Network

variable {ι : Type} [DecidableEq ι] {Signature : Type} (sodium : Sodium Signature)

/-- At every replica each author's next lamport is larger than the stored ones,
and a message added with it is told apart from them. -/
def FreshLamports (state : ι → Replica) : Prop :=
  ∀ replica author, NextIsLarger (state replica) author ∧ AddsNew sodium (state replica) author

/-- The lamports at the replica stay roomy. A message that is added is numbered
behind the greatest lamport of an author: that one must not be the last of its
kind, and of the kind of the lamports that the message's author has. The messages
of an update that verify, with those that are stored, must be of one kind. -/
def KeepsRoom (state : ι → Replica) : Event ι Signature → Prop
  | .add replica author message =>
    let greatest := greatestLamport (state replica).messages author
    let stored := lamportsOf (state replica).messages.columns message.author
    (-1 ≤ greatest ∧ greatest < 2 ^ 63 - 2 ∧ Low stored) ∨ (greatest < -2 ∧ High stored)
  | .merge replica update => ∀ author,
    Roomy (lamportsOf ((state replica).messages.columns ++
      Log.acceptedRows sodium (state replica) update) author)

omit [DecidableEq ι] in
/-- Lamports are fresh exactly when those of every author are roomy. -/
theorem fresh_lamports_roomy_iff (state : ι → Replica)
    (reliable : ∀ replica, (state replica).Reliable) :
    FreshLamports sodium state ↔
      ∀ replica author, Roomy (lamportsOf (state replica).messages.columns author) := by
  refine forall_congr' fun replica => forall_congr' fun author => ?_
  rw [← next_is_larger_iff (reliable replica) author]
  exact ⟨And.left, fun larger => ⟨larger, larger.adds_new (reliable replica) author sodium⟩⟩

omit [DecidableEq ι] in
/-- A step keeps the room exactly when the lamports with the added ones are roomy. -/
theorem keeps_room_iff (state : ι → Replica) (event : Event ι Signature)
    (roomy : ∀ author, Roomy (lamportsOf (state event.replica).messages.columns author)) :
    KeepsRoom sodium state event ↔
      ∀ author, Roomy (lamportsOf ((state event.replica).messages.columns ++
        event.rows sodium (state event.replica)) author) := by
  cases event with
  | merge replica update => exact Iff.rfl
  | add replica author message =>
    let table := (state replica).messages
    let row := Log.addedRow sodium (state replica) author message
    have number : row.lamport.toInt = numberAfter (greatestLamport table author) := by
      rw [Log.added_row_lamport, next_lamport_value]
    have own : ∀ lamport, lamport ∈ lamportsOf (table.columns ++ [row]) message.author ↔
        lamport ∈ numberAfter (greatestLamport table author) ::
          lamportsOf table.columns message.author := by
      intro lamport
      have named : row.author = message.author := rfl
      simp [lamportsOf, named, number, or_comm]
    have keeps : KeepsRoom sodium state (.add replica author message) ↔
        Roomy (lamportsOf (table.columns ++ [row]) message.author) := by
      rw [roomy_congr own, roomy_cons_iff _ (greatest_lamport_fits table author)]
      rfl
    rw [keeps]
    constructor
    · intro kept other
      change Roomy (lamportsOf (table.columns ++ [row]) other)
      by_cases same : message.author = other
      · exact same ▸ kept
      · have named : row.author ≠ other := same
        have others : lamportsOf (table.columns ++ [row]) other =
            lamportsOf table.columns other := by
          simp [lamportsOf, named]
        rw [others]
        exact roomy other
    · intro all
      exact all message.author

/-- In every run from empty tables, all lamports are fresh in every state exactly
when every step of the run keeps the room. -/
theorem fresh_lamports_iff (start : ι → Replica) (blank : Blank start)
    (events : List (Event ι Signature)) :
    Throughout (happen sodium) (FreshLamports sodium) start events ↔
      Along (happen sodium) (KeepsRoom sodium) start events := by
  have keeps : ∀ (state : ι → Replica) (event : Event ι Signature) (next : ι → Replica),
      (∀ replica, (state replica).Reliable) → happen sodium state event = some next →
        ∀ replica, (next replica).Reliable :=
    fun state event next reliable happened replica =>
      (happen_extends sodium state next event reliable happened replica).1
  refine throughout_iff_along keeps ?_ start events blank.reliable ?_
  · intro state event next reliable fresh happened
    have roomy := (fresh_lamports_roomy_iff sodium state reliable).mp fresh
    rw [fresh_lamports_roomy_iff sodium next (keeps state event next reliable happened),
      keeps_room_iff sodium state event (roomy event.replica)]
    have columns := fun replica =>
      (happen_extends sodium state next event reliable happened replica).2
    constructor
    · intro all author
      have here := all event.replica author
      rwa [columns, if_pos rfl] at here
    · intro here replica author
      rw [columns]
      by_cases same : replica = event.replica
      · rw [if_pos same, same]
        exact here author
      · rw [if_neg same, List.append_nil]
        exact roomy replica author
  · rw [fresh_lamports_roomy_iff sodium start blank.reliable]
    intro replica author
    rw [blank.empty replica]
    exact roomy_nil

theorem fresh_lamports_iff_sample :
    Throughout (happen Sodium.transparent) (FreshLamports Sodium.transparent)
        sampleNetwork.replicas sampleEvents ↔
      Along (happen Sodium.transparent) (KeepsRoom Sodium.transparent) sampleNetwork.replicas
        sampleEvents :=
  fresh_lamports_iff Sodium.transparent sampleNetwork.replicas sample_blank sampleEvents

/-- A message of author `a` with the last lamport that a cell holds. -/
def lastMessage : ChatMessage := ⟨ascii "a", 0x7FFFFFFFFFFFFFFF, 5, ascii "hi"⟩

/-- An update with that message, signed by its author. -/
def lastUpdate : Log.Update Buffer :=
  SortedMap.empty.insert (ascii "a")
    [(Sodium.transparent.signDetached (Serde.chatMessage lastMessage) (sampleKey 1), lastMessage)]

/-- After that message the next lamport of its author is the one it has. -/
theorem last_lamport_repeats :
    Blank sampleNetwork.replicas ∧
      ¬ Throughout (happen Sodium.transparent) (FreshLamports Sodium.transparent)
        sampleNetwork.replicas [.merge false lastUpdate] := by
  refine ⟨sample_blank, fun throughout => ?_⟩
  have stored : lamportsOf (Log.acceptedRows Sodium.transparent Log.sampleReplica lastUpdate)
      (ascii "a") = [2 ^ 63 - 1] := by
    decide +kernel
  obtain ⟨reliable, columns⟩ := happen_extends Sodium.transparent sampleNetwork.replicas _
    (.merge false lastUpdate) sample_blank.reliable rfl false
  have larger := (throughout.2 _ rfl false (ascii "a")).1
  rw [next_is_larger_iff reliable, columns] at larger
  change Roomy (lamportsOf (Log.acceptedRows Sodium.transparent Log.sampleReplica lastUpdate)
    (ascii "a")) at larger
  rw [stored] at larger
  rcases larger with low | high
  · exact absurd (low _ List.mem_cons_self).2 (by decide)
  · exact absurd (high _ List.mem_cons_self) (by decide)

end Network

end Replikon
