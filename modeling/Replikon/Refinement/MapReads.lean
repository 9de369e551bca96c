import Replikon.Model.MapCrdt

/-!
# What the reading operations of `MapCRDT` leave behind

`getRequest` and `getUpdate` index the map by the keys they are handed, which
files a default under each key that is absent. No key is given another value by
that, so the answers are those of the map as it was. The map itself stays as it
was exactly when it holds every key that was asked for.
-/

namespace Replikon.MapCRDT

open Foundation

universe u v w

variable {K : Type v} [LinearOrder K] {crdt : ValueCRDT.{u}}

/-- The map after `_values[k]` was evaluated for each of the keys. -/
def filed (values : MapCRDT K crdt) (keys : List K) : MapCRDT K crdt :=
  keys.foldl (fun current k => current.insert k (valueAt current k)) values

/-- The map holds every key of a header or a request. -/
def Holds {α : Type w} (values : MapCRDT K crdt) (asked : List (K × α)) : Prop :=
  ∀ entry ∈ asked, (values.find entry.1).isSome

/-- A held key refers to its value. -/
theorem value_at_of_find {values : MapCRDT K crdt} {key : K} {value : crdt.State}
    (found : values.find key = some value) : valueAt values key = value := by
  simp [valueAt, found]

/-- Assigning a value changes what its key refers to and nothing else. -/
theorem value_at_insert (values : MapCRDT K crdt) (key query : K) (value : crdt.State) :
    valueAt (values.insert key value) query = if query = key then value else valueAt values query := by
  simp only [valueAt, SortedMap.find_insert]
  split <;> rfl

/-- Filing a key leaves every value as it was. -/
theorem value_at_file (values : MapCRDT K crdt) (key : K) :
    valueAt (values.insert key (valueAt values key)) = valueAt values := by
  funext query
  rw [value_at_insert]
  split
  next same => rw [same]
  next => rfl

/-- After filing, the filed keys are held with the values they referred to. -/
theorem find_filed (values : MapCRDT K crdt) (keys : List K) (query : K) :
    (filed values keys).find query =
      if query ∈ keys then some (valueAt values query) else values.find query := by
  induction keys generalizing values with
  | nil => simp [filed]
  | cons key rest inductionHypothesis =>
    have later := inductionHypothesis (values.insert key (valueAt values key))
    rw [value_at_file, SortedMap.find_insert] at later
    change (filed (values.insert key (valueAt values key)) rest).find query = _
    rw [later]
    by_cases again : query ∈ rest
    · simp [again]
    · by_cases same : query = key
      · simp [same]
      · simp [again, same]

/-- Filing leaves every value as it was. -/
theorem value_at_filed (values : MapCRDT K crdt) (keys : List K) :
    valueAt (filed values keys) = valueAt values := by
  funext query
  rw [valueAt, find_filed]
  split
  · rfl
  · rfl

/-- Filing keys changes nothing exactly when all of them are held. -/
theorem filed_eq_self_iff (values : MapCRDT K crdt) (keys : List K) :
    filed values keys = values ↔ ∀ key ∈ keys, (values.find key).isSome := by
  constructor
  · intro unchanged key member
    rw [← unchanged, find_filed, if_pos member]
    rfl
  · intro held
    apply SortedMap.ext_find
    intro query
    rw [find_filed]
    split
    next member =>
      obtain ⟨value, found⟩ := Option.isSome_iff_exists.mp (held query member)
      rw [value_at_of_find found, found]
    next => rfl

/-- A request asks for each key of the header with the value the map had for it. -/
theorem get_request_eq (values : MapCRDT K crdt) (header : List (K × crdt.Header)) :
    getRequest values header = (filed values (header.map (·.1)),
      header.map fun entry => (entry.1, crdt.getRequest (valueAt values entry.1) entry.2)) := by
  induction header generalizing values with
  | nil => rfl
  | cons entry rest inductionHypothesis =>
    rw [getRequest, inductionHypothesis, value_at_file]
    rfl

/-- An update answers each key of the request with the value the map had for it. -/
theorem get_update_eq (values : MapCRDT K crdt) (request : List (K × crdt.Request)) :
    getUpdate values request = (filed values (request.map (·.1)),
      request.map fun entry => (entry.1, crdt.getUpdate (valueAt values entry.1) entry.2)) := by
  induction request generalizing values with
  | nil => rfl
  | cons entry rest inductionHypothesis =>
    rw [getUpdate, inductionHypothesis, value_at_file]
    rfl

/-- Filing the keys of a header or a request changes nothing exactly when the map
holds them. -/
theorem filed_asked_iff {α : Type w} (values : MapCRDT K crdt) (asked : List (K × α)) :
    filed values (asked.map (·.1)) = values ↔ Holds values asked := by
  rw [filed_eq_self_iff, List.forall_mem_map]
  exact Iff.rfl

/-- A map holds its own keys. -/
theorem holds_get_header (values : MapCRDT K crdt) : Holds values (getHeader values) := by
  intro entry member
  obtain ⟨⟨key, value⟩, present, rfl⟩ := List.mem_map.mp member
  rw [(SortedMap.find_eq_some_iff values key value).mpr present]
  rfl

end Replikon.MapCRDT
