import DiveTable.Proofs.FiniteReadings

/-! # Decimal cells

A finite number is shown with a sign, digits, a point and the digits of its decimal places, and a
row has finite numbers only where its events had. So in every table of a dump a cell of a decimal
column is empty or a plain decimal. -/
namespace DiveTable

/-- A decimal with the given places: whole digits, a point, and as many digits as places; a minus
sign may stand in front. -/
def IsDecimal (places : Nat) (cell : List Char) : Prop :=
  ∃ sign whole fraction, cell = sign ++ whole ++ '.' :: fraction ∧ (sign = [] ∨ sign = ['-']) ∧
    whole ≠ [] ∧ (∀ c ∈ whole, c.isDigit = true) ∧
    fraction.length = places ∧ ∀ c ∈ fraction, c.isDigit = true

def decimalColumns : List (String × Nat) :=
  [("Depth", 2), ("Temperature", 1), ("PPO2", 2), ("CNS", 2), ("Setpoint", 2), ("DecoDepth", 2)]

inductive DecimalColumn where
  | reading (quantity : Quantity)
  | stopDepth
  deriving DecidableEq, Repr

namespace DecimalColumn

def title : DecimalColumn → String
  | reading .depth => "Depth"
  | reading .temperature => "Temperature"
  | reading .ppo2 => "PPO2"
  | reading .cns => "CNS"
  | reading .setpoint => "Setpoint"
  | stopDepth => "DecoDepth"

def places : DecimalColumn → Nat
  | reading q => q.places
  | stopDepth => 2

def cell (row : Row) : DecimalColumn → String
  | reading q => row.field q
  | stopDepth => row.deco.depth.fixedText 2

theorem places_pos (c : DecimalColumn) : 0 < c.places := by
  rcases c with q | _
  · cases q <;> decide
  · decide

theorem places_le (c : DecimalColumn) : c.places ≤ 2 := by
  rcases c with q | _
  · cases q <;> decide
  · decide

/-- Each column has its place in every row. -/
theorem field_at_title (c : DecimalColumn) (row : Row) :
    row.fields[header.idxOf c.title]? = some (c.cell row) := by
  rcases c with q | _
  · cases q <;> rfl
  · rfl

theorem exists_of_mem {column : String × Nat} (h : column ∈ decimalColumns) :
    ∃ c : DecimalColumn, column = (c.title, c.places) := by
  simp only [decimalColumns, List.mem_cons, List.not_mem_nil, or_false] at h
  rcases h with rfl | rfl | rfl | rfl | rfl | rfl
  · exact ⟨.reading .depth, rfl⟩
  · exact ⟨.reading .temperature, rfl⟩
  · exact ⟨.reading .ppo2, rfl⟩
  · exact ⟨.reading .cns, rfl⟩
  · exact ⟨.reading .setpoint, rfl⟩
  · exact ⟨.stopDepth, rfl⟩

end DecimalColumn

theorem isDigit_of_mem_zeroPadded {width n : Nat} {c : Char} (h : c ∈ (zeroPadded width n).toList) :
    c.isDigit = true := by
  rw [zeroPadded, String.toList_ofList] at h
  rcases List.mem_append.1 h with zero | digit
  · rw [List.eq_of_mem_replicate zero]
    rfl
  · exact Csv.isDigit_of_mem_toDigits digit

theorem length_zeroPadded {width n : Nat} (pos : 0 < width) (h : n < tenTo width) :
    (zeroPadded width n).toList.length = width := by
  have short : (Nat.toDigits 10 n).length ≤ width :=
    (Nat.length_toDigits_le_iff (by decide) pos).2 h
  rw [zeroPadded, String.toList_ofList, List.length_append, List.length_replicate]
  omega

theorem toList_pointed {places : Nat} (pos : 0 < places) (n : Nat) :
    (pointed places n).toList = Nat.toDigits 10 (n / tenTo places) ++
      '.' :: (zeroPadded places (n % tenTo places)).toList := by
  rw [pointed, if_neg (by omega), String.toList_append, String.toList_append, Nat.toList_repr,
    List.append_assoc]
  rfl

namespace Binary64

theorem isFinite_iff (x : Binary64) :
    x.isFinite = true ↔ x.isNaN = false ∧ x.isInfinite = false := by
  simp only [isFinite, isNaN, isInfinite, decide_eq_true_eq, decide_eq_false_iff_not]
  omega

theorem fixedText_of_finite {x : Binary64} (finite : x.isFinite = true) (places : Nat) :
    x.fixedText places = x.signText ++ pointed places (x.parts places) := by
  obtain ⟨known, bounded⟩ := (isFinite_iff x).1 finite
  rw [fixedText, known, bounded]
  rfl

theorem toList_signText (x : Binary64) :
    x.signText.toList = [] ∨ x.signText.toList = ['-'] := by
  unfold signText
  cases x.negative with
  | false => exact .inl rfl
  | true => exact .inr rfl

theorem isDecimal_fixedText {x : Binary64} (finite : x.isFinite = true) {places : Nat}
    (pos : 0 < places) : IsDecimal places (x.fixedText places).toList := by
  refine ⟨x.signText.toList, Nat.toDigits 10 (x.parts places / tenTo places), _, ?_,
    toList_signText x, Nat.toDigits_ne_nil,
    fun _ hc => Csv.isDigit_of_mem_toDigits hc,
    length_zeroPadded pos (Nat.mod_lt (x.parts places) (tenTo_pos places)),
    fun _ hc => isDigit_of_mem_zeroPadded hc⟩
  rw [fixedText_of_finite finite, String.toList_append, toList_pointed pos, List.append_assoc]

end Binary64

namespace Segment

theorem mem_of_mem_cut {events : List Event} {s : Segment} (hs : s ∈ cut events) {event : Event}
    (h : event ∈ s.events) : event ∈ events := by
  induction events with
  | nil => cases hs
  | cons first rest ih =>
    rcases first.time_or_timeless with ⟨ms, rfl⟩ | timeless
    · rcases List.mem_cons.1 hs with rfl | later
      · exact List.mem_cons_of_mem _ (List.takeWhile_subset _ h)
      · exact List.mem_cons_of_mem _ (ih later)
    · rw [cut_of_timeless timeless] at hs
      exact List.mem_cons_of_mem _ (ih hs)

theorem get_row (s : Segment) (q : Quantity) : s.row.get q = s.last q := by
  cases q <;> rfl

end Segment

namespace Row

structure Finite (row : Row) : Prop where
  readings : ∀ q x, row.get q = some x → x.isFinite = true
  deco : row.deco.depth.isFinite = true

theorem cell_empty_or_decimal {row : Row} (finite : row.Finite) (c : DecimalColumn) :
    (c.cell row).toList = [] ∨ IsDecimal c.places (c.cell row).toList := by
  cases c with
  | reading q =>
    change (row.field q).toList = [] ∨ IsDecimal q.places (row.field q).toList
    unfold field
    cases value : row.get q with
    | none => exact .inl rfl
    | some x =>
      have pos := (DecimalColumn.reading q).places_pos
      exact .inr (Binary64.isDecimal_fixedText (finite.readings q x value) pos)
  | stopDepth => exact .inr (Binary64.isDecimal_fixedText finite.deco (by decide))

theorem cell_of_column {row : Row} (finite : row.Finite) {column : String × Nat}
    (h : column ∈ decimalColumns) {cell : String}
    (found : row.fields[header.idxOf column.1]? = some cell) :
    cell.toList = [] ∨ IsDecimal column.2 cell.toList := by
  obtain ⟨c, rfl⟩ := DecimalColumn.exists_of_mem h
  cases (c.field_at_title row).symm.trans found
  exact cell_empty_or_decimal finite c

theorem splitAt_line (row : Row) : splitAt ',' row.line.toList = row.fields.map String.toList :=
  Csv.splitAt_intercalate_plain (List.cons_ne_nil _ _) Csv.isPlain_of_mem_fields

end Row

theorem Segment.finite_row {s : Segment}
    (h : ∀ event ∈ s.events, ∀ x ∈ event.floats, x.isFinite = true) : s.row.Finite where
  readings := by
    intro q x hx
    rw [get_row] at hx
    obtain ⟨event, hevent, value⟩ := List.mem_filterMap.1 (List.mem_of_getLast? hx)
    cases event with
    | reading p y =>
      unfold Event.reading? at value
      dsimp only at value
      by_cases same : p = q
      · rw [if_pos same] at value
        cases value
        exact h _ hevent x (List.mem_singleton.2 rfl)
      · rw [if_neg same] at value
        cases value
    | time ms => cases value
    | deco state => cases value
    | other name => cases value
  deco := by
    change ((s.events.filterMap Event.deco?).getLast?.getD .clear).depth.isFinite = true
    cases last : (s.events.filterMap Event.deco?).getLast? with
    | none => exact Json.isFinite_zero false
    | some state =>
      obtain ⟨event, hevent, value⟩ := List.mem_filterMap.1 (List.mem_of_getLast? last)
      cases event with
      | deco shown =>
        cases value
        exact h _ hevent state.depth (List.mem_singleton.2 rfl)
      | time ms => cases value
      | reading q x => cases value
      | other name => cases value

theorem Accumulator.finite_rows {events : List Event}
    (h : ∀ event ∈ events, ∀ x ∈ event.floats, x.isFinite = true) :
    ∀ row ∈ rows events, row.Finite := by
  intro row hrow
  rw [rows_eq_map_cut] at hrow
  obtain ⟨s, hs, rfl⟩ := List.mem_map.1 hrow
  exact Segment.finite_row fun event hevent => h event (Segment.mem_of_mem_cut hs hevent)

/-- What is read of an accepted dump, and what is delivered from it, is finite. Its table is
written, and below the header a decimal column has empty cells and plain decimals only. -/
theorem readings_of_dump_finite (input : List UInt8) (dump : Dump)
    (accepted : Dump.parse input = .ok dump) :
    (∀ x, dump.maxDepth? = some x → x.isFinite = true) ∧
    (∀ event, .ok event ∈ dump.items → ∀ x ∈ event.floats, x.isFinite = true) ∧
    ∀ debug, ∃ summary text lines,
      (convert debug dump.items .empty).outcome = .ok (summary, .memory text) ∧
      splitAt '\n' text.toList = lines ++ [[]] ∧
      ∀ line ∈ lines.tail, ∀ column ∈ decimalColumns, ∀ cell,
        (splitAt ',' line)[header.idxOf column.1]? = some cell →
          cell = [] ∨ IsDecimal column.2 cell := by
  refine ⟨(Dump.finite_of_parse accepted).1, fun event h => Dump.floats_finite accepted h, ?_⟩
  intro debug
  have written := convert_memory debug dump.items ""
  rw [String.empty_append] at written
  refine ⟨_, _, _, written, splitAt_tableText _, ?_⟩
  intro line hline column hcolumn cell hcell
  have finite : ∀ row ∈ Accumulator.rows (Items.events dump.items), row.Finite := by
    apply Accumulator.finite_rows
    intro event hevent
    obtain ⟨i, hi, rfl⟩ := List.mem_iff_getElem.1 hevent
    have item := Items.getElem_events (List.getElem?_eq_getElem hi)
    exact Dump.floats_finite accepted (List.mem_of_getElem? item)
  rw [tableLines, List.map_cons, List.tail_cons, List.map_map] at hline
  obtain ⟨row, hrow, rfl⟩ := List.mem_map.1 hline
  rw [Function.comp_apply, Row.splitAt_line, List.getElem?_map] at hcell
  obtain ⟨field, hfield, rfl⟩ := Option.map_eq_some_iff.1 hcell
  exact Row.cell_of_column (finite row hrow) hcolumn hfield

/-- Numbers at the edge of what a double holds: one just below the greatest, one with more digits
than a word, and one that an exponent makes zero. -/
def extremeDump : List UInt8 :=
  ("\x7b\"format_version\":\"1.0.0\",\"vendor\":\"Divesoft\",\"product\":\"Freedom\"," ++
    "\"max_depth\":179769313486231570e291,\"samples\":[[\"time\",0]," ++
    "[\"depth\",123456789012345678901234567890.5],[\"temperature\",-4e-99999999999]," ++
    "[\"deco\",[\"ndl\",1,0.000001e305]]]\x7d").toUTF8.toList

theorem readings_of_extremeDump :
    ∃ dump, Dump.parse extremeDump = .ok dump ∧ dump.items.length = 4 ∧
      (∃ x, dump.maxDepth? = some x) ∧
      (∀ x, dump.maxDepth? = some x → x.isFinite = true) ∧
      (∀ event, .ok event ∈ dump.items → ∀ x ∈ event.floats, x.isFinite = true) ∧
      ∀ debug, ∃ summary text lines,
        (convert debug dump.items .empty).outcome = .ok (summary, .memory text) ∧
        splitAt '\n' text.toList = lines ++ [[]] ∧
        ∀ line ∈ lines.tail, ∀ column ∈ decimalColumns, ∀ cell,
          (splitAt ',' line)[header.idxOf column.1]? = some cell →
            cell = [] ∨ IsDecimal column.2 cell := by
  have read : (Dump.parse extremeDump).toOption.map
      (fun dump => (dump.items.length, dump.maxDepth?.isSome)) = some (4, true) := by
    decide +kernel
  cases accepted : Dump.parse extremeDump with
  | error fault =>
    rw [accepted] at read
    cases read
  | ok dump =>
    rw [accepted] at read
    obtain ⟨count, known⟩ := Prod.mk.inj (Option.some.inj read)
    exact ⟨dump, rfl, count, Option.isSome_iff_exists.1 known,
      readings_of_dump_finite extremeDump dump accepted⟩

end DiveTable
