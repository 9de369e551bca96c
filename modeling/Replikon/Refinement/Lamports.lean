import Replikon.Refinement.Pull

/-!
# The lamport of a new message

`addNewMessage` takes one more than the greatest stored lamport of the author.
That is a new lamport, except at the end of the range: there the sum is a real,
which is read back clamped as the greatest lamport again.
-/

namespace Replikon

open MessagesTable

/-- The greatest stored lamport of an author, zero without one. -/
def greatestLamport (table : MessagesTable) (author : Text) : Int :=
  (lamportsOf table.columns author).max?.getD 0

/-- Stored lamports are signed 64-bit numbers. -/
theorem lamports_fit (rows : List MessageColumns) (author : Text) (lamport : Int)
    (member : lamport ∈ lamportsOf rows author) : Sql.Fits lamport := by
  obtain ⟨row, _, _, rfl⟩ := (mem_lamports_of _ _ _).mp member
  exact ⟨row.lamport.le_toInt, row.lamport.toInt_lt⟩

/-- The greatest lamport is stored, unless nothing is. -/
theorem greatest_lamport_cases (table : MessagesTable) (author : Text) :
    (lamportsOf table.columns author = [] ∧ greatestLamport table author = 0) ∨
      (greatestLamport table author ∈ lamportsOf table.columns author ∧
        ∀ lamport ∈ lamportsOf table.columns author, lamport ≤ greatestLamport table author) := by
  rw [greatestLamport]
  cases greatest : (lamportsOf table.columns author).max? with
  | none => exact .inl ⟨List.max?_eq_none_iff.mp greatest, rfl⟩
  | some lamport =>
    obtain ⟨member, bound⟩ := List.max?_eq_some_iff.mp greatest
    exact .inr ⟨member, bound⟩

theorem greatest_lamport_fits (table : MessagesTable) (author : Text) :
    Sql.Fits (greatestLamport table author) := by
  rcases greatest_lamport_cases table author with ⟨_, zero⟩ | ⟨member, _⟩
  · rw [zero]
    decide
  · exact lamports_fit _ _ _ member

theorem next_lamport_eq (table : MessagesTable) (author : Text) :
    table.nextLamport (some author) = Sql.add (greatestLamport table author) 1 := by
  simp [nextLamport, greatestLamport, lamportsOf]

/-- Below the end of the range the next lamport is one more than the greatest. -/
theorem next_lamport_exact (table : MessagesTable) (author : Text)
    (room : greatestLamport table author < 2 ^ 63 - 1) :
    (Sql.toInt64 (table.nextLamport (some author))).toInt = greatestLamport table author + 1 := by
  obtain ⟨lower, _⟩ := greatest_lamport_fits table author
  have fits : Sql.Fits (greatestLamport table author + 1) := ⟨by omega, by omega⟩
  rw [next_lamport_eq, Sql.add_exact _ _ fits, Sql.to_int64_exact _ fits]

/-- At the end of the range the next lamport is the greatest one again. -/
theorem next_lamport_clamped (table : MessagesTable) (author : Text)
    (full : greatestLamport table author = 2 ^ 63 - 1) :
    Sql.toInt64 (table.nextLamport (some author)) = Int64.maxValue := by
  rw [next_lamport_eq, full]
  decide

namespace Log

variable {Signature : Type} (sodium : Sodium Signature) (replica : Replica) (author : Author)
  (message : ChatMessage)

/-- The stored lamport of a new message. -/
theorem added_row_lamport :
    (addedRow sodium replica author message).lamport =
      Sql.toInt64 (replica.messages.nextLamport (some author)) := by
  simp [addedRow, MessagesDao.toColumns, assigned, assignedLamport]

/-- A message that an author adds in its own name gets a new lamport exactly
when none of the author's stored lamports is the last one. -/
theorem added_fresh_iff (own : message.author = author) :
    (addedRow sodium replica author message).identity ∉
        replica.messages.columns.map MessageColumns.identity ↔
      ∀ row ∈ replica.messages.columns, row.author = author → row.lamport ≠ Int64.maxValue := by
  have identity : (addedRow sodium replica author message).identity =
      (author, Sql.toInt64 (replica.messages.nextLamport (some author))) :=
    Prod.ext own (added_row_lamport sodium replica author message)
  have last : Int64.maxValue.toInt = 2 ^ 63 - 1 := by decide
  have fits := greatest_lamport_fits replica.messages author
  rw [identity]
  by_cases room : greatestLamport replica.messages author < 2 ^ 63 - 1
  · have next := next_lamport_exact replica.messages author room
    have bounded : ∀ row ∈ replica.messages.columns, row.author = author →
        row.lamport.toInt ≤ greatestLamport replica.messages author := by
      intro row member rowAuthor
      have stored := (mem_lamports_of _ _ _).mpr ⟨row, member, rowAuthor, rfl⟩
      rcases greatest_lamport_cases replica.messages author with ⟨none, _⟩ | ⟨_, bound⟩
      · rw [none] at stored
        exact absurd stored List.not_mem_nil
      · exact bound _ stored
    constructor
    · intro _ row member rowAuthor same
      have below := bounded row member rowAuthor
      rw [same, last] at below
      omega
    · intro _ again
      obtain ⟨row, member, same⟩ := List.mem_map.mp again
      obtain ⟨rowAuthor, rowLamport⟩ := Prod.mk.inj same
      have below := bounded row member rowAuthor
      rw [rowLamport, next] at below
      omega
  · have full : greatestLamport replica.messages author = 2 ^ 63 - 1 := by
      have upper := fits.2
      omega
    have clamped := next_lamport_clamped replica.messages author full
    rcases greatest_lamport_cases replica.messages author with ⟨_, zero⟩ | ⟨stored, _⟩
    · omega
    · obtain ⟨row, member, rowAuthor, rowLamport⟩ := (mem_lamports_of _ _ _).mp stored
      have maximal : row.lamport = Int64.maxValue := by
        apply Int64.toInt_inj.mp
        rw [rowLamport, full, last]
      constructor
      · intro fresh
        refine absurd (List.mem_map.mpr ⟨row, member, ?_⟩) fresh
        rw [clamped, MessageColumns.identity, rowAuthor, maximal]
      · intro below
        exact absurd maximal (below row member rowAuthor)

end Log

end Replikon
