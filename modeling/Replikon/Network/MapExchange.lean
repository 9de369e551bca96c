import Mathlib.Data.Set.Insert
import Mathlib.Logic.Function.Basic
import Replikon.Foundation.Runs
import Replikon.Refinement.MapConvergence
import Replikon.Refinement.MapReads

/-!
# Maps that pull from each other

Any number of replicas of a map update it locally, answer headers with requests
and requests with updates, and merge the updates that were sent, in any order
and any number of times. Headers and requests come from peers and may name any
keys. Beside the replicas the state keeps what was done to them: the keys that
were locally updated or merged at each, and the values that local updates left.

A request for a key that the map does not hold is where reading writes: the key
is filed with a default, which later headers list and later updates carry to
replicas that hold a written value there.
-/

namespace Replikon.MapCRDT

open Foundation

universe u v w

variable {ι : Type w} {K : Type v} [LinearOrder K]

section Merging

variable {crdt : ValueCRDT.{u}}

/-- A merge holds the keys that were held and those of the update. -/
theorem held_merge {values : MapCRDT K crdt} {update : List (K × crdt.Update)} {key : K}
    (held : ((merge values update).1.find key).isSome) :
    (values.find key).isSome ∨ key ∈ update.map (·.1) := by
  by_cases named : key ∈ update.map (·.1)
  · exact .inr named
  · have none : updatesOf key update = [] := by
      rw [updatesOf, List.map_eq_nil_iff, List.filter_eq_nil_iff]
      intro entry member same
      exact named (List.mem_map.mpr ⟨entry, member, of_decide_eq_true same⟩)
    rw [merge, find_merge_entries, none] at held
    exact .inl held

/-- A merged register holds the value it had or one of the update. -/
theorem find_merge_register {V : Type u} [Inhabited V] {values : MapCRDT K (Register V)}
    {update : List (K × V)} {key : K} {value : V}
    (found : (merge values update).1.find key = some value) :
    values.find key = some value ∨ (key, value) ∈ update := by
  rw [merge, find_merge_entries, absorb_register] at found
  cases last : (@updatesOf K _ (Register V) key update).getLast? with
  | none =>
    rw [last] at found
    exact .inl found
  | some other =>
    rw [last] at found
    obtain rfl : other = value := Option.some.inj found
    obtain ⟨entry, member, rfl⟩ := List.mem_map.mp (List.mem_of_getLast? last)
    obtain ⟨listed, same⟩ := List.mem_filter.mp member
    exact .inr (of_decide_eq_true same ▸ listed)

end Merging

/-- The replicas and the updates they sent. With them, what was done so far: at
each replica the keys that were locally updated or merged there, and with its key
each value that a local update left. -/
structure Exchange (ι : Type w) (K : Type v) [LinearOrder K] (crdt : ValueCRDT.{u}) where
  maps : ι → MapCRDT K crdt
  sent : List (List (K × crdt.Update))
  touched : ι → Set K
  written : Set (K × crdt.State)

namespace Exchange

variable {crdt : ValueCRDT.{u}}

/-- Replicas with some contents, which count as written there. Nothing was sent. -/
def start (maps : ι → MapCRDT K crdt) : Exchange ι K crdt where
  maps := maps
  sent := []
  touched replica := {key | ((maps replica).find key).isSome}
  written := {entry | ∃ replica, (maps replica).find entry.1 = some entry.2}

/-- What a replica may do. Headers and requests are given as they arrive, a sent
update is named by its place. -/
inductive Action (ι : Type w) (K : Type v) (crdt : ValueCRDT.{u}) where
  | write (replica : ι) (key : K) (update : crdt.Update)
  | request (replica : ι) (header : List (K × crdt.Header))
  | answer (replica : ι) (request : List (K × crdt.Request))
  | merge (replica : ι) (place : Nat)

variable [DecidableEq ι]

/-- One step. There is none for a place where nothing was sent. -/
def step (state : Exchange ι K crdt) : Action ι K crdt → Option (Exchange ι K crdt)
  | .write replica key update =>
    let map := localUpdate (state.maps replica) key update
    some { state with
      maps := Function.update state.maps replica map
      touched := Function.update state.touched replica (insert key (state.touched replica))
      written := insert (key, valueAt map key) state.written }
  | .request replica header =>
    let (map, _) := getRequest (state.maps replica) header
    some { state with maps := Function.update state.maps replica map }
  | .answer replica request =>
    let (map, update) := getUpdate (state.maps replica) request
    some { state with
      maps := Function.update state.maps replica map
      sent := state.sent ++ [update] }
  | .merge replica place => (state.sent[place]?).map fun update =>
    let (map, _) := MapCRDT.merge (state.maps replica) update
    { state with
      maps := Function.update state.maps replica map
      touched := Function.update state.touched replica
        (state.touched replica ∪ {key | key ∈ update.map (·.1)}) }

/-- The headers and requests that a replica is given name only keys that its map holds. -/
def AsksHeld (state : Exchange ι K crdt) : Action ι K crdt → Prop
  | .request replica header => Holds (state.maps replica) header
  | .answer replica request => Holds (state.maps replica) request
  | _ => True

/-- Answering a header or a request leaves the map as it was. -/
def ReadsOnly (state : Exchange ι K crdt) : Action ι K crdt → Prop
  | .request replica header => (getRequest (state.maps replica) header).1 = state.maps replica
  | .answer replica request => (getUpdate (state.maps replica) request).1 = state.maps replica
  | _ => True

/-- The header of each replica lists only keys that were locally updated or merged there. -/
def HeadersTouched (state : Exchange ι K crdt) : Prop :=
  ∀ replica, ∀ entry ∈ getHeader (state.maps replica), entry.1 ∈ state.touched replica

/-- A merge replaces a written value by a written one only, so never by a default
that nobody wrote. -/
def WrittenStays (state : Exchange ι K crdt) : Action ι K crdt → Prop
  | .merge replica place => ∀ update, state.sent[place]? = some update →
    ∀ key value other, (state.maps replica).find key = some value → (key, value) ∈ state.written →
      (MapCRDT.merge (state.maps replica) update).1.find key = some other →
        (key, other) ∈ state.written
  | _ => True

omit [DecidableEq ι] in
/-- Answering leaves the map as it was exactly when it held what was asked for. -/
theorem reads_only_iff (state : Exchange ι K crdt) (action : Action ι K crdt) :
    ReadsOnly state action ↔ AsksHeld state action := by
  cases action with
  | write replica key update => exact Iff.rfl
  | request replica header =>
    rw [ReadsOnly, AsksHeld, get_request_eq, filed_asked_iff]
  | answer replica request =>
    rw [ReadsOnly, AsksHeld, get_update_eq, filed_asked_iff]
  | merge replica place => exact Iff.rfl

/-- A header of held keys changes nothing. -/
theorem step_request {state : Exchange ι K crdt} {replica : ι} {header : List (K × crdt.Header)}
    (asked : Holds (state.maps replica) header) :
    step state (.request replica header) = some state := by
  have unchanged : (getRequest (state.maps replica) header).1 = state.maps replica :=
    (reads_only_iff state (.request replica header)).mpr asked
  simp only [step, unchanged, Function.update_eq_self]

/-- A request for held keys sends their values and changes nothing else. -/
theorem step_answer {state : Exchange ι K crdt} {replica : ι} {request : List (K × crdt.Request)}
    (asked : Holds (state.maps replica) request) :
    step state (.answer replica request) =
      some { state with sent := state.sent ++ [(getUpdate (state.maps replica) request).2] } := by
  have unchanged : (getUpdate (state.maps replica) request).1 = state.maps replica :=
    (reads_only_iff state (.answer replica request)).mpr asked
  simp only [step, unchanged, Function.update_eq_self]

/-- Every held key was locally updated or merged where it is held. -/
def KeysTouched (state : Exchange ι K crdt) : Prop :=
  ∀ replica key, ((state.maps replica).find key).isSome → key ∈ state.touched replica

omit [DecidableEq ι] in
/-- Then the headers list such keys only. -/
theorem KeysTouched.headers {state : Exchange ι K crdt} (touched : KeysTouched state) :
    HeadersTouched state :=
  fun replica entry member => touched replica entry.1 (holds_get_header _ entry member)

/-- A step that asks for held keys keeps the held keys touched. -/
theorem step_keys_touched (state : Exchange ι K crdt) (action : Action ι K crdt)
    (next : Exchange ι K crdt) (touched : KeysTouched state) (asked : AsksHeld state action)
    (stepped : step state action = some next) : KeysTouched next := by
  intro replica key held
  cases action with
  | write writer place update =>
    cases stepped
    by_cases same : replica = writer
    · subst same
      simp only [Function.update_self] at held ⊢
      rw [localUpdate, SortedMap.find_insert] at held
      by_cases here : key = place
      · exact .inl here
      · rw [if_neg here] at held
        exact .inr (touched replica key held)
    · simp only [Function.update_of_ne same] at held ⊢
      exact touched replica key held
  | request reader header =>
    rw [step_request asked] at stepped
    cases stepped
    exact touched replica key held
  | answer reader request =>
    rw [step_answer asked] at stepped
    cases stepped
    exact touched replica key held
  | merge merger place =>
    obtain ⟨update, sent, rfl⟩ := Option.map_eq_some_iff.mp stepped
    by_cases same : replica = merger
    · subst same
      simp only [Function.update_self] at held ⊢
      exact (held_merge held).imp (touched replica key) id
    · simp only [Function.update_of_ne same] at held ⊢
      exact touched replica key held

/-- A run asks for held keys only exactly when its reads change nothing. Then
every header lists touched keys. -/
theorem run_reads_iff (maps : ι → MapCRDT K crdt) (actions : List (Action ι K crdt)) :
    Along step ReadsOnly (start maps) actions ∧
        Throughout step HeadersTouched (start maps) actions ↔
      Along step AsksHeld (start maps) actions := by
  have same : (ReadsOnly : Exchange ι K crdt → Action ι K crdt → Prop) = AsksHeld := by
    funext state action
    exact propext (reads_only_iff state action)
  rw [same]
  refine and_iff_left_of_imp fun asked => ?_
  have touched := throughout_of_along step_keys_touched (start maps) actions
    (fun replica key held => held) asked
  exact Throughout.imp (fun state keys => keys.headers) (start maps) actions touched

section Register

variable {V : Type u} [Inhabited V]

/-- Every value that is held or sent was written with its key. -/
structure ValuesWritten (state : Exchange ι K (Register V)) : Prop where
  held : ∀ replica key value, (state.maps replica).find key = some value →
    (key, value) ∈ state.written
  sent : ∀ update ∈ state.sent, ∀ entry ∈ update, entry ∈ state.written

omit [DecidableEq ι] in
/-- Then a merge leaves written values only. -/
theorem ValuesWritten.merged {state : Exchange ι K (Register V)} (values : ValuesWritten state)
    {replica : ι} {update : List (K × V)} (sent : update ∈ state.sent) {key : K} {value : V}
    (found : (MapCRDT.merge (state.maps replica) update).1.find key = some value) :
    (key, value) ∈ state.written := by
  rcases find_merge_register found with before | new
  · exact values.held replica key value before
  · exact values.sent update sent (key, value) new

omit [DecidableEq ι] in
/-- An update that answers a request for held keys carries written values only. -/
theorem ValuesWritten.answered {state : Exchange ι K (Register V)} (values : ValuesWritten state)
    {replica : ι} {request : List (K × PUnit)} (asked : Holds (state.maps replica) request)
    (entry : K × V)
    (member : entry ∈ (@getUpdate K _ (Register V) (state.maps replica) request).2) :
    entry ∈ state.written := by
  rw [get_update_eq] at member
  obtain ⟨wanted, listed, rfl⟩ := List.mem_map.mp member
  obtain ⟨value, found⟩ := Option.isSome_iff_exists.mp (asked wanted listed)
  rw [value_at_of_find found]
  exact values.held replica wanted.1 value found

/-- A step that asks for held keys keeps all values written. -/
theorem step_values_written (state : Exchange ι K (Register V))
    (action : Action ι K (Register V)) (next : Exchange ι K (Register V))
    (values : ValuesWritten state) (asked : AsksHeld state action)
    (stepped : step state action = some next) : ValuesWritten next := by
  cases action with
  | write writer place update =>
    cases stepped
    refine ⟨?_, fun sent member entry listed => .inr (values.sent sent member entry listed)⟩
    intro replica key value found
    by_cases same : replica = writer
    · subst same
      simp only [Function.update_self, localUpdate, SortedMap.find_insert] at found
      by_cases here : key = place
      · rw [if_pos here] at found
        left
        rw [here, localUpdate, value_at_insert, if_pos rfl, ← Option.some.inj found]
      · rw [if_neg here] at found
        exact .inr (values.held replica key value found)
    · simp only [Function.update_of_ne same] at found
      exact .inr (values.held replica key value found)
  | request reader header =>
    rw [step_request asked] at stepped
    cases stepped
    exact values
  | answer reader request =>
    rw [step_answer asked] at stepped
    cases stepped
    refine ⟨values.held, ?_⟩
    intro update member entry listed
    rcases List.mem_append.mp member with old | new
    · exact values.sent update old entry listed
    · rw [List.mem_singleton.mp new] at listed
      exact values.answered asked entry listed
  | merge merger place =>
    obtain ⟨update, sent, rfl⟩ := Option.map_eq_some_iff.mp stepped
    refine ⟨?_, values.sent⟩
    intro replica key value found
    by_cases same : replica = merger
    · subst same
      simp only [Function.update_self] at found
      exact values.merged (List.mem_of_getElem? sent) found
    · simp only [Function.update_of_ne same] at found
      exact values.held replica key value found

/-- In a run that asks for held keys only, no merge replaces a written value by
one that nobody wrote. -/
theorem run_written_stays (maps : ι → MapCRDT K (Register V))
    (actions : List (Action ι K (Register V))) (asked : Along step AsksHeld (start maps) actions) :
    Along step WrittenStays (start maps) actions := by
  have blank : ValuesWritten (start maps) :=
    ⟨fun replica key value found => ⟨replica, found⟩, fun update member => by cases member⟩
  have values := throughout_of_along step_values_written (start maps) actions blank asked
  refine along_of_throughout ?_ (start maps) actions values
  intro state action written
  cases action with
  | write replica key update => trivial
  | request replica header => trivial
  | answer replica request => trivial
  | merge replica place =>
    intro update sent key value other _ _ found
    exact written.merged (List.mem_of_getElem? sent) found

end Register

/-- In every run of any number of replicas, whatever they start with and whatever
value type the map has, the reads change no map and the headers list touched keys
only, exactly when every header and every request names only keys that the map
holds. Then no merge of registers replaces a written value by one that nobody
wrote either. -/
theorem syncing_reads_only_iff :
    (∀ (crdt : ValueCRDT.{u}) (maps : ι → MapCRDT K crdt) (actions : List (Action ι K crdt)),
      Along step ReadsOnly (start maps) actions ∧
          Throughout step HeadersTouched (start maps) actions ↔
        Along step AsksHeld (start maps) actions) ∧
    ∀ (V : Type u) [Inhabited V] (maps : ι → MapCRDT K (Register V))
      (actions : List (Action ι K (Register V))),
      Along step ReadsOnly (start maps) actions ∧
          Throughout step HeadersTouched (start maps) actions ∧
          Along step WrittenStays (start maps) actions ↔
        Along step AsksHeld (start maps) actions := by
  refine ⟨fun crdt => run_reads_iff, fun V _ maps actions => ?_⟩
  rw [← and_assoc, run_reads_iff]
  exact and_iff_left_of_imp (run_written_stays maps actions)

/-- A map of registers with one written value. -/
def writtenMap : MapCRDT Nat (Register Nat) := localUpdate SortedMap.empty 0 7

/-- An empty map after it has answered the header of that one. -/
def askedMap : MapCRDT Nat (Register Nat) :=
  (getRequest SortedMap.empty (getHeader writtenMap)).1

/-- Two replicas pull from each other. Each asks by the header of the other; the
request of the one that wrote is answered before the other has merged. -/
def crossedPulls : List (Action Bool Nat (Register Nat)) :=
  [.write true 0 7, .request false (getHeader writtenMap), .request true (getHeader askedMap),
    .answer false (getRequest writtenMap (getHeader askedMap)).2, .merge true 0]

/-- The header files a default at the other replica, whose header lists it. The
default is sent for it, and the merge replaces the written value. -/
theorem default_replaces_written :
    ¬ Along step ReadsOnly (start fun _ => SortedMap.empty) crossedPulls ∧
      ¬ Throughout step HeadersTouched (start fun _ => SortedMap.empty) crossedPulls ∧
      ¬ Along step WrittenStays (start fun _ => SortedMap.empty) crossedPulls := by
  refine ⟨fun reads => ?_, fun headers => ?_, fun stays => ?_⟩
  · have filing := ((reads _ rfl).2 _ rfl).1
    have held := (reads_only_iff _ _).mp filing (0, ⟨⟩) (by decide)
    exact absurd held (by decide)
  · have listing := (headers.2 _ rfl).2 _ rfl
    have touched := listing.1 false (0, ⟨⟩) (by decide)
    exact Bool.false_ne_true touched
  · have merging := (((((stays _ rfl).2 _ rfl).2 _ rfl).2 _ rfl).2 _ rfl).1
    have written := merging [(0, 0)] rfl 0 7 0 (by decide) (.inl rfl) (by decide)
    rcases written with same | ⟨_, before⟩
    · exact absurd same (by decide)
    · cases before

end Exchange

end Replikon.MapCRDT
