import Mathlib.Data.Vector.Basic

/-!
# Composable codecs

A codec writes a value as a list of symbols and reads one back from the front
of a list, returning what it did not consume, on failure as well. `Fits` bounds
the values that can occur. A codec round-trips if reading what it wrote, in
front of anything, gives the value and exactly the rest. Round-tripping codecs
are injective and prefix-free, and the combinators below keep the property.

A codec is stable if what it read does not depend on what follows, and then it
tells a cut encoding from a whole one. It is canonical on certain inputs if it
writes what it read there as the same symbols, and as many symbols everywhere.
-/

namespace Replikon.Foundation

universe u v w

/-- A writer and a reader of values as symbols. -/
structure Codec (α : Type u) (T : Type v) where
  encode : T → List α
  decode : List α → Option T × List α
  Fits : T → Prop

namespace Codec

variable {α : Type u} {S : Type v} {T : Type w}

/-- Continue with a value that was read; a failure is passed on. -/
def andThen (first : Option S × List α) (next : S → List α → Option T × List α) :
    Option T × List α :=
  match first with
  | (none, rest) => (none, rest)
  | (some value, rest) => next value rest

/-- A sequence of two reads succeeds when both do. -/
theorem and_then_eq_some (first : Option S × List α) (next : S → List α → Option T × List α)
    (value : T) (rest : List α) :
    andThen first next = (some value, rest) ↔
      ∃ held middle, first = (some held, middle) ∧ next held middle = (some value, rest) := by
  obtain ⟨read, middle⟩ := first
  cases read with
  | none => simp [andThen]
  | some held => simp [andThen]

/-- Reading what was written gives the value and leaves exactly the rest. -/
def RoundTrip (codec : Codec α T) : Prop :=
  ∀ value, codec.Fits value → ∀ rest, codec.decode (codec.encode value ++ rest) = (some value, rest)

/-- No encoding starts another one: reading the longer encoding back finds the
shorter one's value. -/
theorem RoundTrip.eq_of_prefix {codec : Codec α T} (roundTrip : codec.RoundTrip) (first second : T)
    (firstFits : codec.Fits first) (secondFits : codec.Fits second)
    (starts : codec.encode first <+: codec.encode second) : first = second := by
  obtain ⟨rest, whole⟩ := starts
  have readFirst := roundTrip first firstFits rest
  have readSecond := roundTrip second secondFits []
  rw [List.append_nil] at readSecond
  rw [whole, readSecond] at readFirst
  exact (Option.some.inj (congrArg Prod.fst readFirst)).symm

/-- Different values have different encodings. -/
theorem RoundTrip.injective {codec : Codec α T} (roundTrip : codec.RoundTrip) (first second : T)
    (firstFits : codec.Fits first) (secondFits : codec.Fits second)
    (same : codec.encode first = codec.encode second) : first = second :=
  roundTrip.eq_of_prefix first second firstFits secondFits (same ▸ List.prefix_rfl)

/-- The codec of the one value that needs no symbols. -/
def unit : Codec α PUnit.{v + 1} where
  encode _ := []
  decode input := (some ⟨⟩, input)
  Fits _ := True

theorem unit_round_trip : (unit : Codec α PUnit.{v + 1}).RoundTrip := fun _ _ _ => rfl

/-- One value after another. -/
def pair (first : Codec α S) (second : Codec α T) : Codec α (S × T) where
  encode values := first.encode values.1 ++ second.encode values.2
  decode input :=
    andThen (first.decode input) fun left rest =>
      andThen (second.decode rest) fun right rest => (some (left, right), rest)
  Fits values := first.Fits values.1 ∧ second.Fits values.2

theorem RoundTrip.pair {first : Codec α S} {second : Codec α T} (firstTrip : first.RoundTrip)
    (secondTrip : second.RoundTrip) : (first.pair second).RoundTrip := by
  rintro ⟨left, right⟩ ⟨leftFits, rightFits⟩ rest
  simp only [Codec.pair, List.append_assoc, firstTrip left leftFits, secondTrip right rightFits,
    andThen]

/-- Values written through another representation. -/
def via (codec : Codec α T) (represent : S → T) (restore : T → S) : Codec α S where
  encode value := codec.encode (represent value)
  decode input := andThen (codec.decode input) fun value rest => (some (restore value), rest)
  Fits value := codec.Fits (represent value)

theorem RoundTrip.via {codec : Codec α T} (roundTrip : codec.RoundTrip) {represent : S → T}
    {restore : T → S} (restores : ∀ value, restore (represent value) = value) :
    (codec.via represent restore).RoundTrip := by
  intro value fits rest
  simp only [Codec.via, roundTrip (represent value) fits, andThen, restores]

/-- Read the given number of values. -/
def decodeMany (codec : Codec α T) : (count : Nat) → List α → Option (List.Vector T count) × List α
  | 0, input => (some List.Vector.nil, input)
  | count + 1, input =>
    andThen (codec.decode input) fun item rest =>
      andThen (codec.decodeMany count rest) fun items rest => (some (item ::ᵥ items), rest)

/-- A fixed number of values. -/
def replicate (codec : Codec α T) (count : Nat) : Codec α (List.Vector T count) where
  encode values := values.toList.flatMap codec.encode
  decode input := codec.decodeMany count input
  Fits values := ∀ value ∈ values.toList, codec.Fits value

/-- By induction on the number of values. -/
theorem RoundTrip.replicate {codec : Codec α T} (roundTrip : codec.RoundTrip) (count : Nat) :
    (codec.replicate count).RoundTrip := by
  induction count with
  | zero =>
    intro values _ rest
    rw [values.eq_nil]
    rfl
  | succ count inductionHypothesis =>
    intro values fits rest
    obtain ⟨item, items, rfl⟩ := values.exists_eq_cons
    have itemFits : codec.Fits item := fits item (by simp)
    have itemsFit : (codec.replicate count).Fits items := fun value member =>
      fits value (by simp [member])
    have first := roundTrip item itemFits (items.toList.flatMap codec.encode ++ rest)
    have later := inductionHypothesis items itemsFit rest
    simp only [Codec.replicate] at later
    simp only [Codec.replicate, List.Vector.toList_cons, List.flatMap_cons, List.append_assoc,
      decodeMany, first, later, andThen]

/-- What a reader reads stays the same when more follows. -/
def StableRead (read : List α → Option T × List α) : Prop :=
  ∀ input value rest, read input = (some value, rest) →
    ∀ more, read (input ++ more) = (some value, rest ++ more)

theorem stable_read_pure (value : Option T) :
    StableRead fun input : List α => (value, input) := by
  intro input value rest read more
  cases read
  rfl

/-- A sequence of stable reads is stable. -/
theorem StableRead.andThen {read : List α → Option S × List α}
    {next : S → List α → Option T × List α} (first : StableRead read)
    (second : ∀ value, StableRead (next value)) :
    StableRead fun input => Codec.andThen (read input) next := by
  intro input value rest sequence more
  obtain ⟨held, middle, readHeld, readRest⟩ := (and_then_eq_some _ _ _ _).mp sequence
  have whole := first _ _ _ readHeld more
  have later := second held _ _ _ readRest more
  simp only [whole, Codec.andThen, later]

/-- What was read stays the same when more follows. -/
def Stable (codec : Codec α T) : Prop := StableRead codec.decode

/-- A proper prefix of an encoding is not read: with the rest appended it would
be read as the whole value, which leaves nothing. -/
theorem Stable.truncated {codec : Codec α T} (stable : codec.Stable) (roundTrip : codec.RoundTrip)
    (value : T) (fits : codec.Fits value) (cut : List α) (starts : cut <+: codec.encode value)
    (proper : cut ≠ codec.encode value) : (codec.decode cut).1 = none := by
  obtain ⟨missing, whole⟩ := starts
  cases read : codec.decode cut with
  | mk found rest =>
    cases found with
    | none => rfl
    | some other =>
      have extended := stable cut other rest read missing
      have complete := roundTrip value fits []
      rw [List.append_nil, ← whole, extended] at complete
      have nothing : rest ++ missing = [] := congrArg Prod.snd complete
      have none : missing = [] := (List.append_eq_nil_iff.mp nothing).2
      rw [none, List.append_nil] at whole
      exact absurd whole proper

theorem unit_stable : (unit : Codec α PUnit.{v + 1}).Stable := stable_read_pure _

theorem Stable.pair {first : Codec α S} {second : Codec α T} (firstStable : first.Stable)
    (secondStable : second.Stable) : (first.pair second).Stable :=
  StableRead.andThen firstStable fun _ => secondStable.andThen fun _ => stable_read_pure _

theorem Stable.via {codec : Codec α T} (stable : codec.Stable) {represent : S → T}
    {restore : T → S} : (codec.via represent restore).Stable :=
  StableRead.andThen stable fun _ => stable_read_pure _

/-- By induction on the number of values. -/
theorem Stable.replicate {codec : Codec α T} (stable : codec.Stable) (count : Nat) :
    (codec.replicate count).Stable := by
  induction count with
  | zero => exact stable_read_pure _
  | succ count inductionHypothesis =>
    exact StableRead.andThen stable fun _ => inductionHypothesis.andThen fun _ => stable_read_pure _

/-- What was read is written again with as many symbols, and as the same symbols
exactly on the canonical inputs. -/
def CanonicalOn (codec : Codec α T) (canonical : List α → Prop) : Prop :=
  ∀ input value rest, codec.decode input = (some value, rest) →
    ∃ consumed, input = consumed ++ rest ∧ (codec.encode value).length = consumed.length ∧
      (codec.encode value = consumed ↔ canonical input)

theorem unit_canonical : (unit : Codec α PUnit.{v + 1}).CanonicalOn fun _ => True := by
  intro input value rest read
  cases read
  exact ⟨[], rfl, rfl, by simp [unit]⟩

/-- A pair is canonical where both parts are. As many symbols are written as were
read for either, so the two written parts stand against the two read ones. -/
theorem CanonicalOn.pair {first : Codec α S} {second : Codec α T} {left right : List α → Prop}
    (firstCanonical : first.CanonicalOn left) (secondCanonical : second.CanonicalOn right) :
    (first.pair second).CanonicalOn fun input => left input ∧ right (first.decode input).2 := by
  intro input values rest read
  obtain ⟨value, middle, readValue, readRest⟩ := (and_then_eq_some _ _ _ _).mp read
  obtain ⟨other, _, readOther, same⟩ := (and_then_eq_some _ _ _ _).mp readRest
  cases same
  obtain ⟨consumed, whole, length, iff⟩ := firstCanonical _ _ _ readValue
  obtain ⟨consumedLater, wholeLater, lengthLater, iffLater⟩ := secondCanonical _ _ _ readOther
  refine ⟨consumed ++ consumedLater, ?_, ?_, ?_⟩
  · rw [List.append_assoc, ← wholeLater, ← whole]
  · simp only [Codec.pair, List.length_append, length, lengthLater]
  · simp only [Codec.pair, readValue, ← iff, ← iffLater]
    exact ⟨fun same => List.append_inj same length, fun same => congrArg₂ _ same.1 same.2⟩

theorem CanonicalOn.via {codec : Codec α T} {canonical : List α → Prop}
    (canonicalOn : codec.CanonicalOn canonical) {represent : S → T} {restore : T → S}
    (represents : ∀ value, represent (restore value) = value) :
    (codec.via represent restore).CanonicalOn canonical := by
  intro input value rest read
  obtain ⟨held, _, readHeld, same⟩ := (and_then_eq_some _ _ _ _).mp read
  cases same
  simp only [Codec.via, represents]
  exact canonicalOn _ _ _ readHeld

/-- Every one of the next values is read from a canonical input. -/
def Each (codec : Codec α T) (canonical : List α → Prop) : Nat → List α → Prop
  | 0, _ => True
  | count + 1, input =>
    canonical input ∧ Each codec canonical count (codec.decode input).2

/-- By induction on the number of values, one value like the first part of a pair. -/
theorem CanonicalOn.replicate {codec : Codec α T} {canonical : List α → Prop}
    (canonicalOn : codec.CanonicalOn canonical) (count : Nat) :
    (codec.replicate count).CanonicalOn (codec.Each canonical count) := by
  induction count with
  | zero =>
    intro input values rest read
    cases read
    exact ⟨[], rfl, rfl, by simp [Codec.replicate, Each]⟩
  | succ count inductionHypothesis =>
    intro input values rest read
    obtain ⟨item, middle, readItem, readRest⟩ := (and_then_eq_some _ _ _ _).mp read
    obtain ⟨items, _, readItems, same⟩ := (and_then_eq_some _ _ _ _).mp readRest
    cases same
    have readPair : (codec.pair (codec.replicate count)).decode input =
        (some (item, items), rest) := by
      have later : (codec.replicate count).decode middle = (some items, rest) := readItems
      simp only [Codec.pair, readItem, later, andThen]
    have paired := canonicalOn.pair inductionHypothesis _ _ _ readPair
    simpa only [Codec.pair, Codec.replicate, List.Vector.toList_cons, List.flatMap_cons, Each]
      using paired

end Codec

end Replikon.Foundation
