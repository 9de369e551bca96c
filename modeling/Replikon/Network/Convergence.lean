import Replikon.Network.CausalDelivery
import Replikon.Refinement.MergeLaws

/-!
# When pulls connect all replicas, the logs are the same

After the last message was added, let replicas that have all authors' keys pull
until pulls lead from every replica to every other one. Then every replica holds
all messages, all headers are the same, and a further pull offers nothing.
-/

namespace Replikon.Network

open Foundation Foundation.Gossip MessagesTable

variable {ι : Type} {Signature : Type} {sodium : Sodium Signature} (layouts : KeysCrdt.Layouts)
  {name : ι → Author} {start state : ι → Replica} {entries : ι → List (UInt64 × Text)}

/-- Pulls lead from one replica to another. -/
def Path : ι → List (Deed ι Signature) → ι → Prop
  | here, [], there => here = there
  | here, .pull source puller _ :: rest, there => here = source ∧ Path puller rest there
  | _, _ :: _, _ => False

/-- The step is a pull. -/
def Deed.IsPull : Deed ι Signature → Prop
  | .pull _ _ _ => True
  | _ => False

variable (sodium name start) in
/-- Every replica has every author's correct key. -/
def Informed (state : ι → Replica) : Prop :=
  ∀ replica author, (state replica).registeredKey (name author) =
    some (sodium.publicKey (start author).selfPrivKey)

/-- With the correct key every row of a history verifies. -/
theorem informed_own_signature (honest : Honest sodium) (informed : Informed sodium name start state)
    (replica author : ι) (row : MessageColumns)
    (member : row ∈ history sodium name start (entries author) author) :
    Log.ownSignature sodium (state replica) row = true := by
  obtain ⟨entry, _, number, rfl⟩ := mem_history sodium name start _ author row member
  let message := authoredMessage name author (entry, number)
  let offer : Log.Offer Signature :=
    ⟨name author, sodium.signDetached (Serde.chatMessage message) (start author).selfPrivKey, message⟩
  have same : authoredRow sodium name start author (entry, number) = offer.row sodium := rfl
  rw [same, Log.own_signature_row]
  exact (Replica.verifies_iff sodium _ _ _ _).mpr
    ⟨sodium.publicKey (start author).selfPrivKey, informed replica author, honest _ _⟩

variable [DecidableEq ι]

/-- A pull among informed replicas is announced and leaves them informed. -/
theorem informed_pull (cast : Cast name start) (limited : Limited entries) (source puller : ι)
    (apart : source ≠ puller) (rest : List (Deed ι Signature))
    (spread : Spread sodium name start entries state) (informed : Informed sodium name start state) :
    ∃ next, Spread sodium name start entries next ∧ Informed sodium name start next ∧
      announcements sodium layouts name state (.pull source puller apart :: rest) =
        .taken source puller (fun row => Log.ownSignature sodium (state puller) row = true) ::
          announcements sodium layouts name next rest := by
  obtain ⟨next, stepped, spreadNext, security, _⟩ :=
    spread.pull layouts cast limited source puller apart
  refine ⟨next, spreadNext, ?_, ?_⟩
  · intro replica author
    rw [Replica.registeredKey, security replica]
    exact informed replica author
  · rw [announcements, stepped]
    rfl

/-- Among informed replicas, pulls that lead from one replica to another carry any
row of a history. The induction is on the run, of which the path is a part. -/
theorem path_leads (cast : Cast name start) (honest : Honest sodium) (limited : Limited entries)
    (author : ι) (row : MessageColumns)
    (member : row ∈ history sodium name start (entries author) author)
    {path deeds : List (Deed ι Signature)} (part : path.Sublist deeds)
    (pulls : ∀ deed ∈ deeds, deed.IsPull) (here there : ι) (leads : Path here path there)
    (spread : Spread sodium name start entries state) (informed : Informed sodium name start state) :
    ∃ chain, chain.Sublist (announcements sodium layouts name state deeds) ∧
      Leads row here chain there := by
  induction part generalizing here state with
  | slnil => exact ⟨[], List.nil_sublist _, leads⟩
  | @cons path rest deed part inductionHypothesis =>
    cases deed with
    | add _ _ _ _ => exact (pulls _ List.mem_cons_self).elim
    | directory _ _ _ => exact (pulls _ List.mem_cons_self).elim
    | pull source puller apart =>
      obtain ⟨next, spreadNext, informedNext, announces⟩ :=
        informed_pull layouts cast limited source puller apart rest spread informed
      obtain ⟨chain, within, carries⟩ := inductionHypothesis
        (fun other listed => pulls other (List.mem_cons_of_mem _ listed)) here leads spreadNext
        informedNext
      rw [announces]
      exact ⟨chain, within.cons _, carries⟩
  | @cons_cons path rest deed part inductionHypothesis =>
    cases deed with
    | add _ _ _ _ => exact (pulls _ List.mem_cons_self).elim
    | directory _ _ _ => exact (pulls _ List.mem_cons_self).elim
    | pull source puller apart =>
      obtain ⟨rfl, onward⟩ := leads
      obtain ⟨next, spreadNext, informedNext, announces⟩ :=
        informed_pull layouts cast limited here puller apart rest spread informed
      obtain ⟨chain, within, carries⟩ := inductionHypothesis
        (fun other listed => pulls other (List.mem_cons_of_mem _ listed)) puller onward spreadNext
        informedNext
      rw [announces]
      exact ⟨_, within.cons_cons _, rfl,
        informed_own_signature honest informed puller author row member, carries⟩

/-- A run of pulls adds no message. -/
theorem added_pulls (author : ι) (deeds : List (Deed ι Signature))
    (pulls : ∀ deed ∈ deeds, deed.IsPull) : added author deeds = [] := by
  refine List.filterMap_eq_nil_iff.mpr fun deed listed => ?_
  cases deed with
  | add _ _ _ _ => exact (pulls _ listed).elim
  | pull _ _ _ => rfl
  | directory _ _ _ => rfl

omit [DecidableEq ι] in
/-- A pull from a replica that holds no other rows offers no message. -/
theorem nothing_offered (spread : Spread sodium name start entries state) (cast : Cast name start)
    (limited : Limited entries) (source puller : ι)
    (within : ∀ row ∈ (state source).messages.columns, row ∈ (state puller).messages.columns) :
    ∃ pulled, Log.pull sodium (state source) (state puller) = .ok pulled ∧
      (∀ author, Log.rowsUnder sodium pulled.update author = []) ∧
      pulled.puller.messages = (state puller).messages := by
  obtain ⟨pulled, searched, completes, _, pullerAfter, supplies⟩ :=
    Log.pull_run sodium (spread.reliable source) (spread.reliable puller)
      (spread.sound cast limited source) (spread.sound cast limited puller)
  have held : ∀ row ∈ (state source).messages.columns,
      row.identity ∈ (state puller).messages.columns.map MessageColumns.identity :=
    fun row member => List.mem_map_of_mem (within row member)
  refine ⟨pulled, completes, ?_, ?_⟩
  · intro author
    have none : Log.lacking (state source).messages (state puller).messages author = [] := by
      refine List.filter_eq_nil_iff.mpr fun row member wanted => ?_
      simp only [decide_eq_true_eq] at wanted
      exact wanted.2 (held row member)
    exact List.Perm.eq_nil (none ▸ supplies author)
  · have none : Log.acceptedRows sodium (state puller) pulled.update = [] := by
      refine List.eq_nil_iff_forall_not_mem.mpr fun row member => ?_
      obtain ⟨present, lacked, _⟩ := (supplies.mem_accepted_rows (state puller) row).mp member
      exact lacked (held row present)
    rw [pullerAfter, none]
    rfl

/-- Connected pulls make all logs the same. After any run, let only pulls follow,
among replicas that by then have all authors' correct keys, and let them lead
from every replica to every other one. Then every replica holds exactly the
messages that were added, in a table that differs from the others in order only;
all replicas have the same header; and a pull between any two of them offers
nothing and changes no message. -/
theorem connected_pulls_converge (sodium : Sodium Signature) (layouts : KeysCrdt.Layouts)
    (name : ι → Author) (start : ι → Replica) (cast : Cast name start) (honest : Honest sodium)
    (early late : List (Deed ι Signature)) (limited : Limited fun author => added author early)
    (pulls : ∀ deed ∈ late, deed.IsPull)
    (informed : ∀ middle, run (perform sodium layouts name) start early = some middle →
      Informed sodium name start middle)
    (connected : ∀ here there, ∃ path, path.Sublist late ∧ Path here path there) :
    ∃ final, run (perform sodium layouts name) start (early ++ late) = some final ∧
      (∀ replica row, row ∈ (final replica).messages.columns ↔
        ∃ author, row ∈ history sodium name start (added author early) author) ∧
      (∀ replica other,
        (final replica).messages.columns.Perm (final other).messages.columns ∧
        (∃ header, Log.getHeader.run (final replica) = .ok header (final replica) ∧
          Log.getHeader.run (final other) = .ok header (final other)) ∧
        ∃ pulled, Log.pull sodium (final replica) (final other) = .ok pulled ∧
          (∀ author, Log.rowsUnder sodium pulled.update author = []) ∧
          pulled.puller.messages = (final other).messages) := by
  have initially : Spread sodium name start (fun _ => []) start := Spread.initially cast
  obtain ⟨middle, ranEarly, spread, _⟩ := spread_run layouts cast early limited initially
  simp only [List.nil_append] at spread
  have unchanged : (fun author => added author early ++ added author late) =
      fun author => added author early := by
    funext author
    rw [added_pulls author late pulls, List.append_nil]
  obtain ⟨final, ranLate, spreadFinal, stores⟩ := spread_run layouts cast late
    (by rwa [unchanged]) spread
  rw [unchanged] at spreadFinal
  have all : ∀ replica row, row ∈ (final replica).messages.columns ↔
      ∃ author, row ∈ history sodium name start (added author early) author := by
    intro replica row
    constructor
    · exact spreadFinal.known replica row
    · rintro ⟨author, listed⟩
      obtain ⟨path, part, leads⟩ := connected author replica
      obtain ⟨chain, within, carries⟩ := path_leads layouts cast honest limited author row
        listed part pulls author replica leads spread (informed middle ranEarly)
      have own : row ∈ stored middle author := by
        rw [← spread.own author] at listed
        exact (List.mem_filter.mp listed).1
      have held := spread_of_chain within own carries
      rw [← stores] at held
      exact held
  have permuted : ∀ replica other,
      (final replica).messages.columns.Perm (final other).messages.columns := by
    intro replica other
    refine (List.perm_ext_iff_of_nodup ?_ ?_).mpr fun row => (all replica row).trans (all other row).symm
    · exact (spreadFinal.distinct replica).of_map _
    · exact (spreadFinal.distinct other).of_map _
  refine ⟨final, ?_, all, fun replica other => ⟨permuted replica other, ?_, ?_⟩⟩
  · rw [run_append, ranEarly]
    exact ranLate
  · refine ⟨tableHeaders (final replica).messages,
      Log.get_header_run (spreadFinal.reliable replica), ?_⟩
    rw [table_headers_congr (permuted replica other)]
    exact Log.get_header_run (spreadFinal.reliable other)
  · exact nothing_offered spreadFinal cast limited replica other
      fun row member => (permuted replica other).mem_iff.mp member

theorem sample_replicas_cast : Cast sampleName sampleReplicas := by
  refine ⟨?_, ?_, by decide, by decide⟩
  · intro replica
    rfl
  · intro replica
    rfl

/-- Each author adds a message. -/
def sampleEarly : List (Deed Bool Buffer) :=
  [.add true 0 5 (ascii "hi"), .add false 7 6 (ascii "ho")]

/-- Each pulls from the other. -/
def sampleLate : List (Deed Bool Buffer) :=
  [.pull true false Bool.false_ne_true.symm, .pull false true Bool.false_ne_true]

theorem sample_early_limited : Limited fun author => added author sampleEarly := by
  refine ⟨?_, ?_⟩ <;> intro author <;> cases author <;> decide

theorem sample_early_informed (middle : Bool → Replica)
    (ran : run (perform Sodium.transparent KeysCrdt.sampleLayouts sampleName) sampleReplicas
      sampleEarly = some middle) : Informed Sodium.transparent sampleName sampleReplicas middle := by
  cases ran
  intro replica author
  cases replica <;> cases author <;> rfl

theorem sample_late_connected (here there : Bool) :
    ∃ path, path.Sublist sampleLate ∧ Path here path there := by
  cases here <;> cases there
  · exact ⟨[], List.nil_sublist _, rfl⟩
  · exact ⟨[_], (List.Sublist.refl _).cons _, rfl, rfl⟩
  · exact ⟨[_], (List.nil_sublist _).cons_cons _, rfl, rfl⟩
  · exact ⟨[], List.nil_sublist _, rfl⟩

theorem connected_pulls_converge_sample :
    ∃ final, run (perform Sodium.transparent KeysCrdt.sampleLayouts sampleName) sampleReplicas
        (sampleEarly ++ sampleLate) = some final ∧
      (∀ replica row, row ∈ (final replica).messages.columns ↔
        ∃ author, row ∈ history Sodium.transparent sampleName sampleReplicas
          (added author sampleEarly) author) ∧
      (∀ replica other,
        (final replica).messages.columns.Perm (final other).messages.columns ∧
        (∃ header, Log.getHeader.run (final replica) = .ok header (final replica) ∧
          Log.getHeader.run (final other) = .ok header (final other)) ∧
        ∃ pulled, Log.pull Sodium.transparent (final replica) (final other) = .ok pulled ∧
          (∀ author, Log.rowsUnder Sodium.transparent pulled.update author = []) ∧
          pulled.puller.messages = (final other).messages) :=
  connected_pulls_converge Sodium.transparent KeysCrdt.sampleLayouts sampleName sampleReplicas
    sample_replicas_cast sample_setting.honest sampleEarly sampleLate sample_early_limited
    (by
      intro deed listed
      simp only [sampleLate, List.mem_cons, List.not_mem_nil, or_false] at listed
      rcases listed with rfl | rfl <;> trivial)
    sample_early_informed sample_late_connected

end Replikon.Network
