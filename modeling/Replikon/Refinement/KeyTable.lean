import Replikon.Foundation.KeyedTable
import Replikon.Refinement.Admins

/-!
# The key table as a table of upserts

`INSERT_KEY_PUBLIC_ONLY` writes the public key of an author and leaves the
private key and the flag of its row; a row that it adds has neither.
-/

namespace Replikon.SecurityTable

open Foundation

/-- The columns that the upsert of a public key does not write. -/
def otherColumns (table : SecurityTable) (author : Text) : Option PrivKey × Bool :=
  ((table.find author).map fun row => (row.privateKey, row.isAdmin)).getD (none, false)

/-- The row that is found is the author's own. -/
theorem find_named {table : SecurityTable} {author : Text} {row : SecurityRow}
    (located : table.find author = some row) : row.author = author := by
  simpa using List.find?_some located

/-- The row of an author after an upsert: the updated row, or the inserted one if
there was none. Other authors keep theirs. -/
theorem find_upsert (table : SecurityTable) (inserted : SecurityRow)
    (update : SecurityRow → PubKey × Option PrivKey × Bool) (query : Text) :
    (table.upsert inserted update).find query =
      if query = inserted.author then
        some (((table.find inserted.author).map fun row =>
          (⟨inserted.author, (update row).1, (update row).2.1, (update row).2.2⟩ :
            SecurityRow)).getD inserted)
      else table.find query := by
  rw [find, upsert_rows]
  split
  next present =>
    have authors : ((fun row : SecurityRow => decide (row.author = query)) ∘ fun row : SecurityRow =>
        if row.author = inserted.author then
          (⟨row.author, (update row).1, (update row).2.1, (update row).2.2⟩ : SecurityRow)
        else row) = fun row => decide (row.author = query) := by
      funext row
      by_cases same : row.author = inserted.author <;> simp [same]
    rw [List.find?_map, authors]
    obtain ⟨stored, member, named⟩ : ∃ stored ∈ table.rows, stored.author = inserted.author :=
      List.mem_map.mp present
    by_cases same : query = inserted.author
    · have located : table.find inserted.author = some stored := by
        rw [← named]
        exact KeysCrdt.find_stored table stored member
      have own : table.rows.find? (fun row => decide (row.author = query)) = some stored := by
        rw [same]
        exact located
      rw [own, if_pos same, located]
      simp [named]
    · rw [if_neg same, find]
      cases located : table.rows.find? (fun row => decide (row.author = query)) with
      | none => rfl
      | some row =>
        have own : row.author = query := find_named located
        have other : ¬ row.author = inserted.author := fun equal => same (own.symm.trans equal)
        simp [other]
  next absent =>
    have missing : table.find inserted.author = none := by
      refine List.find?_eq_none.mpr fun row member => ?_
      have other : ¬ row.author = inserted.author :=
        fun equal => absent (List.mem_map.mpr ⟨row, member, equal⟩)
      simpa using other
    rw [List.find?_append]
    by_cases same : query = inserted.author
    · have unfound : table.rows.find? (fun row => decide (row.author = query)) = none :=
        same ▸ missing
      rw [unfound, if_pos same, missing]
      simp [same]
    · have other : ¬ inserted.author = query := fun equal => same equal.symm
      rw [if_neg same, find]
      simp [other]

/-- The row of an author after the upsert of its key. -/
theorem find_insert_public_only (table : SecurityTable) (author query : Text) (pubKey : PubKey) :
    (table.insertPublicOnly author pubKey).find query =
      if query = author then
        some ⟨author, pubKey, (table.otherColumns author).1, (table.otherColumns author).2⟩
      else table.find query := by
  rw [insertPublicOnly, find_upsert, otherColumns]
  cases table.find author <;> rfl

/-- The upsert of an admin's key keeps the private key as well and sets the flag. -/
theorem find_insert_admin_public_only (table : SecurityTable) (author query : Text)
    (pubKey : PubKey) :
    (table.insertAdminPublicOnly author pubKey).find query =
      if query = author then some ⟨author, pubKey, (table.otherColumns author).1, true⟩
      else table.find query := by
  rw [insertAdminPublicOnly, find_upsert, otherColumns]
  cases table.find author <;> rfl

/-- The upsert of both keys keeps the flag. -/
theorem find_insert_full (table : SecurityTable) (author query : Text) (pubKey : PubKey)
    (privKey : Option PrivKey) :
    (table.insertFull author pubKey privKey).find query =
      if query = author then some ⟨author, pubKey, privKey, (table.otherColumns author).2⟩
      else table.find query := by
  rw [insertFull, find_upsert, otherColumns]
  cases table.find author <;> rfl

/-- A table is its rows. -/
theorem ext_rows {left right : SecurityTable} (same : left.rows = right.rows) : left = right := by
  cases left
  cases right
  congr

/-- A table is its authors with the columns found for each. -/
theorem rows_eq_map_find (table : SecurityTable) :
    table.rows.map some = (table.rows.map (·.author)).map table.find := by
  rw [List.map_map]
  exact List.map_congr_left fun row member => (KeysCrdt.find_stored table row member).symm

/-- The key table, written by `INSERT_KEY_PUBLIC_ONLY`. -/
def keyed : KeyedTable SecurityTable Text PubKey (Option PrivKey × Bool) where
  upsert := insertPublicOnly
  keys table := table.rows.map (·.author)
  value table author := (table.find author).map (·.publicKey)
  others := otherColumns
  mem_keys table author := by
    rw [Option.isSome_map, find, List.find?_isSome, List.mem_map]
    simp
  keys_upsert table author pubKey := by
    rw [insertPublicOnly, upsert_rows]
    split
    · rw [List.map_map]
      refine List.map_congr_left fun row _ => ?_
      by_cases same : row.author = author <;> simp [same]
    · simp
  value_upsert table author pubKey query := by
    rw [find_insert_public_only]
    split <;> rfl
  others_upsert table author pubKey query := by
    rw [otherColumns, find_insert_public_only]
    split
    next same => rw [same]; rfl
    next => rfl
  ext left right authors keys others := by
    have found : ∀ author, left.find author = right.find author := by
      intro author
      have key := keys author
      have columns := others author
      cases foundLeft : left.find author with
      | none =>
        cases foundRight : right.find author with
        | none => rfl
        | some row => simp [foundLeft, foundRight] at key
      | some row =>
        cases foundRight : right.find author with
        | none => simp [foundLeft, foundRight] at key
        | some other =>
          have own := find_named foundLeft
          have otherOwn := find_named foundRight
          obtain ⟨name, pubKey, privKey, flag⟩ := row
          obtain ⟨otherName, otherKey, otherPriv, otherFlag⟩ := other
          simp only [foundLeft, foundRight, otherColumns, Option.map_some, Option.some.injEq,
            Option.getD_some, Prod.mk.injEq] at key columns own otherOwn
          obtain ⟨samePriv, sameFlag⟩ := columns
          rw [own, otherOwn, key, samePriv, sameFlag]
    have rows : left.rows.map some = right.rows.map some := by
      rw [rows_eq_map_find, rows_eq_map_find, authors]
      exact List.map_congr_left fun author _ => found author
    exact ext_rows (List.map_injective_iff.mpr (Option.some_injective _) rows)

end Replikon.SecurityTable
