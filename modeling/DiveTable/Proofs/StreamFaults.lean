import DiveTable.Proofs.FieldValues
import DiveTable.Proofs.TruncatedTable

/-! # Faults of the setup and of the stream

What is wrong with a dump as a whole is found before there is a dump, what is wrong with a sample
only when it is delivered. The two are told apart by their faults: one of the stream names a sample,
one of the setup never does. So samples have no say in whether a document is accepted. -/
namespace DiveTable

open Json Document

theorem Fault.isMidStream_iff {fault : Fault} :
    fault.isMidStream = true ↔ ∃ k, fault.sample? = some k := by
  cases fault <;> simp [isMidStream, sample?]

theorem identify_fault {input : List UInt8} {fault : Fault} (h : identify input = .error fault) :
    fault.isMidStream = false := by
  unfold identify at h
  split at h
  · cases h
    rfl
  · split at h
    · cases h
      rfl
    · split at h
      · cases h
      · cases h
        rfl

namespace Dump

theorem ofDocument_fault {document : Document} {fault : Fault}
    (h : ofDocument document = .error fault) : fault.isMidStream = false := by
  unfold ofDocument at h
  split at h
  · cases h
    rfl
  · split at h
    · cases h
      rfl
    · split at h
      · cases h
        rfl
      · cases h

theorem parse_fault {input : List UInt8} {fault : Fault} (h : parse input = .error fault) :
    fault.isMidStream = false := by
  unfold parse at h
  split at h
  · cases h
    rfl
  · exact ofDocument_fault h

theorem read_fault {debug : Bool} {input : List UInt8} {fault : Fault}
    (h : (read debug input).outcome = .error fault) : fault.isMidStream = false := by
  unfold read at h
  rw [Trace.outcome_bind, Trace.outcome_ofExcept] at h
  cases identified : identify input with
  | error other =>
    rw [identified] at h
    cases h
    exact identify_fault identified
  | ok format =>
    rw [identified] at h
    cases parsed : parse input with
    | error other =>
      rw [parsed] at h
      cases h
      exact parse_fault parsed
    | ok dump =>
      rw [parsed] at h
      cases h

theorem require_fault {α : Type} {metadata : Metadata} {value : Option α} {fault : Fault}
    (h : require metadata value = .error fault) : fault.isMidStream = false := by
  cases value with
  | none =>
    cases h
    rfl
  | some a => cases h

/-- The stream of a dump ends at a sample that is faulty, behind samples that are all delivered,
with a fault that names it. -/
structure EndsAt (dump : Dump) (k : Nat) (fault : Fault) : Prop where
  midStream : fault.isMidStream = true
  names : fault.sample? = some k
  before : ∀ j < k, ∃ event, dump.items[j]? = some (.ok event)
  delivered : (Items.events dump.items).length = k
  within : k < dump.samples.length
  faulty : ∃ raw, dump.samples[k]? = some raw ∧ Sample.Faulty (dump.samples.take k) raw

theorem endsAt_of_fault {dump : Dump} {k : Nat} {fault : Fault}
    (stops : dump.items[k]? = some (.error fault)) : EndsAt dump k fault := by
  have reached : Items.Reached dump.items k := Cursor.reached_of_item stops
  obtain ⟨same, isFault, -⟩ := Items.events_of_fault stops reached
  have count : (Items.events dump.items).length = k := by
    rw [same, Items.length_events_take reached]
  rcases Cursor.end_or_fault dump.samples with
    ⟨-, none⟩ | ⟨raw, other, sample, faulty, found, place⟩
  · cases isFault.symm.trans none
  · obtain rfl : other = fault := Option.some.inj (found.symm.trans isFault)
    have atPlace : (Items.events (Cursor.items dump.samples)).length = k := count
    rw [atPlace] at sample faulty place
    exact {
      midStream := Fault.isMidStream_iff.2 ⟨k, place⟩
      names := place
      before := reached
      delivered := count
      within := (List.getElem?_eq_some_iff.1 sample).1
      faulty := ⟨raw, sample, faulty⟩ }

theorem ofDocument_samples {document : Document} {dump : Dump}
    (h : ofDocument document = .ok dump) (samples : List Value) :
    ofDocument { document with samples } = .ok { dump with samples } := by
  unfold ofDocument at h ⊢
  dsimp only
  split at h
  · cases h
  · split at h
    · cases h
    · rename_i known
      split at h
      · cases h
      · cases h
        exact if_neg known

theorem mapM_of_forall {α β : Type} {of? : α → Option β} {items : List α}
    (h : ∀ item ∈ items, ∃ v, of? item = some v) : ∃ values, items.mapM of? = some values := by
  induction items with
  | nil => exact ⟨[], rfl⟩
  | cons item items ih =>
    obtain ⟨v, value⟩ := h item List.mem_cons_self
    obtain ⟨values, others⟩ := ih fun other mem => h other (List.mem_cons_of_mem _ mem)
    exact ⟨v :: values, by rw [List.mapM_cons, value, others]; rfl⟩

/-- Whatever is written for the samples, the rest of a dump that is accepted stays the same. -/
theorem parse_of_replaced {written : Expr → Expr} {list : Expr} {items : List Expr}
    {input input' : List UInt8} {dump : Dump} (field : FieldIn "samples" 6 written)
    (spelled : Spelled (written list) input) (accepted : parse input = .ok dump)
    (readable : ∀ item ∈ items, ∃ v, item.value? (nestingLimit - 2) = some v)
    (spelled' : Spelled (written (.array items)) input') :
    ∃ samples, items.mapM (Expr.value? (nestingLimit - 2)) = some samples ∧
      parse input' = .ok { dump with samples } := by
  obtain ⟨document, read, judged⟩ := layout_of_parse spelled accepted
  obtain ⟨samples, values⟩ := mapM_of_forall readable
  have replaced := (Document.of_fieldIn field read).2 (.array items)
  rw [Expr.values?, values] at replaced
  refine ⟨samples, values, ?_⟩
  rw [parse_of_layout spelled' replaced, ofDocument_samples judged]

/-- Faults of the setup and faults of the stream never mix. -/
theorem faults_apart :
    (∀ input fault, identify input = .error fault → fault.isMidStream = false) ∧
    (∀ input fault, parse input = .error fault → fault.isMidStream = false) ∧
    (∀ debug input fault, (read debug input).outcome = .error fault →
      fault.isMidStream = false) ∧
    (∀ (dump : Dump) k fault, dump.items[k]? = some (.error fault) → EndsAt dump k fault) ∧
    (∀ (dump : Dump) fault, dump.dateTime = .error fault ∨ dump.maxDepth = .error fault ∨
      dump.diveTime = .error fault → fault.isMidStream = false) ∧
    ∀ written list items input input' dump, FieldIn "samples" 6 written →
      Spelled (written list) input → parse input = .ok dump →
      (∀ item ∈ items, ∃ v, item.value? (nestingLimit - 2) = some v) →
      Spelled (written (.array items)) input' →
        ∃ samples, items.mapM (Expr.value? (nestingLimit - 2)) = some samples ∧
          parse input' = .ok { dump with samples } := by
  refine ⟨?_, ?_, ?_, ?_, ?_, ?_⟩
  · intro input fault failed
    exact identify_fault failed
  · intro input fault failed
    exact parse_fault failed
  · intro debug input fault failed
    exact read_fault failed
  · intro dump k fault stops
    exact endsAt_of_fault stops
  · rintro dump fault (failed | failed | failed)
    · exact require_fault failed
    · exact require_fault failed
    · exact require_fault failed
  · intro written list items input input' dump field spelled accepted readable spelled'
    exact parse_of_replaced field spelled accepted readable spelled'

def strangeItems : List Expr := [.null, .array [.object [], .boolean true]]

def strangeSamples : List Value := [.null, .array [.object [], .boolean true]]

def withSamples (list : Expr) : Expr :=
  .object (plainMembers.take 4 ++ (bytesOf "samples", list) :: [])

theorem fieldIn_withSamples : FieldIn "samples" 6 withSamples :=
  .member _ [] (tokenText_eq_some.1 (by decide +kernel))

theorem values_strangeItems :
    strangeItems.mapM (Expr.value? (nestingLimit - 2)) = some strangeSamples := rfl

theorem faults_apart_strangeItems :
    (∃ none unread unopened, identify [] = .error none ∧ none.isMidStream = false ∧
      parse [] = .error unread ∧ unread.isMidStream = false ∧
      (read true []).outcome = .error unopened ∧ unopened.isMidStream = false) ∧
    ∃ input input' dump fault missing, parse input = .ok dump ∧
      parse input' = .ok { dump with samples := strangeSamples } ∧
      EndsAt { dump with samples := strangeSamples } 0 fault ∧
      diveTime { dump with diveTime? := none } = .error missing ∧ missing.isMidStream = false := by
  obtain ⟨unidentified, unparsed, unopened, ends, unavailable, replaced⟩ := faults_apart
  constructor
  · obtain ⟨unread, failed⟩ : ∃ unread, parse [] = .error unread := ⟨_, rfl⟩
    exact ⟨_, unread, _, rfl, unidentified [] _ rfl, failed, unparsed [] _ failed, rfl,
      unopened true [] _ rfl⟩
  · have spelled : Spelled (withSamples (.array []))
        ([] ++ Expr.print (withSamples (.array [])) []) :=
      spelled_print (by decide +kernel) nofun nofun
    have spelled' : Spelled (withSamples (.array strangeItems))
        ([] ++ Expr.print (withSamples (.array strangeItems)) []) :=
      spelled_print (by decide +kernel) nofun nofun
    have read : (parse ([] ++ Expr.print (withSamples (.array [])) [])).toOption.isSome = true := by
      decide +kernel
    obtain ⟨dump, value⟩ := Option.isSome_iff_exists.1 read
    have accepted := eq_ok_of_toOption value
    have readable : ∀ item ∈ strangeItems, ∃ v, item.value? (nestingLimit - 2) = some v := by
      simp only [strangeItems, List.forall_mem_cons, List.not_mem_nil, false_implies, implies_true,
        and_true]
      exact ⟨⟨_, rfl⟩, _, rfl⟩
    obtain ⟨samples, values, accepted'⟩ :=
      replaced _ _ strangeItems _ _ dump fieldIn_withSamples spelled accepted readable spelled'
    obtain rfl := Option.some.inj (values_strangeItems.symm.trans values)
    exact ⟨_, _, dump, _, _, accepted, accepted', ends _ 0 _ rfl, rfl,
      unavailable { dump with diveTime? := none } _ (.inr (.inr rfl))⟩

end Dump

end DiveTable
