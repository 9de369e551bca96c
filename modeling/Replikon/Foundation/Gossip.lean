import Mathlib.Data.Set.Basic

/-!
# How items spread by pulls

Places hold sets of items. An item is born at a place, or a place takes over from
another one all items that it admits. After a run of such events a place holds
exactly the items to which a chain of takeovers leads from their birth: each
link starts where the one before ended, comes later in the run and admits the
item. The chain is a sublist of the run, so the order of events is part of what
is said.
-/

namespace Replikon.Foundation.Gossip

universe u v
variable {place : Type u} {item : Type v}

/-- One event of a run. -/
inductive Event (place : Type u) (item : Type v) where
  | born (origin : place) (new : item)
  | taken (source target : place) (admits : item → Prop)

/-- What the places hold after an event. -/
def spreadStep (held : place → Set item) : Event place item → place → Set item
  | .born origin new => fun here => {thing | thing ∈ held here ∨ here = origin ∧ thing = new}
  | .taken source target admits =>
    fun here => {thing | thing ∈ held here ∨ here = target ∧ thing ∈ held source ∧ admits thing}

/-- What the places hold after a run. -/
def spread (held : place → Set item) (events : List (Event place item)) : place → Set item :=
  events.foldl spreadStep held

/-- A chain of takeovers carries the item from one place to another. -/
def Leads (thing : item) : place → List (Event place item) → place → Prop
  | start, [], finish => start = finish
  | start, .taken source target admits :: rest, finish =>
    start = source ∧ admits thing ∧ Leads thing target rest finish
  | _, .born _ _ :: _, _ => False

theorem spread_append (held : place → Set item) (before after : List (Event place item)) :
    spread held (before ++ after) = spread (spread held before) after :=
  List.foldl_append

/-- An item that is held stays. -/
theorem subset_spread_step (held : place → Set item) (event : Event place item) (here : place) :
    held here ⊆ spreadStep held event here := by
  intro thing member
  cases event with
  | born origin new => exact .inl member
  | taken source target admits => exact .inl member

theorem subset_spread (held : place → Set item) (events : List (Event place item)) (here : place) :
    held here ⊆ spread held events here := by
  induction events generalizing held with
  | nil => exact fun _ member => member
  | cons event rest inductionHypothesis =>
    exact (subset_spread_step held event here).trans (inductionHypothesis _)

/-- A chain through a run carries what is held at its start. -/
theorem spread_of_chain {thing : item} {start finish : place} {held : place → Set item}
    {events chain : List (Event place item)} (part : chain.Sublist events)
    (present : thing ∈ held start) (leads : Leads thing start chain finish) :
    thing ∈ spread held events finish := by
  induction part generalizing held start with
  | slnil =>
    have same : start = finish := leads
    exact same ▸ present
  | cons event part inductionHypothesis =>
    exact inductionHypothesis (subset_spread_step held event start present) leads
  | cons_cons event part inductionHypothesis =>
    cases event with
    | born origin new => exact leads.elim
    | taken source target admits =>
      obtain ⟨rfl, admitted, onward⟩ := leads
      exact inductionHypothesis (.inr ⟨rfl, present, admitted⟩) onward

/-- What a place holds after a run, by a chain from where the item was at the
start or from where it was born. The induction is on the run, whose first event
either is the first link or comes before it. -/
theorem mem_spread_iff (held : place → Set item) (events : List (Event place item))
    (thing : item) (finish : place) :
    thing ∈ spread held events finish ↔
      (∃ start chain, thing ∈ held start ∧ chain.Sublist events ∧ Leads thing start chain finish) ∨
        ∃ origin chain, (.born origin thing :: chain).Sublist events ∧
          Leads thing origin chain finish := by
  constructor
  · intro member
    induction events generalizing held with
    | nil => exact .inl ⟨finish, [], member, List.Sublist.slnil, rfl⟩
    | cons event rest inductionHypothesis =>
      rcases inductionHypothesis (spreadStep held event) member with
        ⟨start, chain, present, part, leads⟩ | ⟨origin, chain, part, leads⟩
      · cases event with
        | born origin new =>
          rcases present with old | ⟨rfl, rfl⟩
          · exact .inl ⟨start, chain, old, part.cons _, leads⟩
          · exact .inr ⟨start, chain, part.cons_cons _, leads⟩
        | taken source target admits =>
          rcases present with old | ⟨rfl, found, admitted⟩
          · exact .inl ⟨start, chain, old, part.cons _, leads⟩
          · exact .inl ⟨source, _ :: chain, found, part.cons_cons _, rfl, admitted, leads⟩
      · exact .inr ⟨origin, chain, part.cons _, leads⟩
  · rintro (⟨start, chain, present, part, leads⟩ | ⟨origin, chain, part, leads⟩)
    · exact spread_of_chain part present leads
    · obtain ⟨before, after, rfl, inBefore, inAfter⟩ := List.cons_sublist_iff.mp part
      rw [spread_append]
      refine spread_of_chain inAfter ?_ leads
      obtain ⟨early, late, rfl⟩ := List.append_of_mem inBefore
      rw [spread_append]
      exact subset_spread _ late origin (.inr ⟨rfl, rfl⟩)

/-- Where nothing is held at the start, only births count. -/
theorem mem_spread_empty_iff (events : List (Event place item)) (thing : item) (finish : place) :
    thing ∈ spread (fun _ => ∅) events finish ↔
      ∃ origin chain, (.born origin thing :: chain).Sublist events ∧
        Leads thing origin chain finish := by
  rw [mem_spread_iff]
  constructor
  · rintro (⟨_, _, absent, _⟩ | born)
    · exact absent.elim
    · exact born
  · exact .inr

end Replikon.Foundation.Gossip
