import DiveTable.Proofs.ExactRounding
import DiveTable.Proofs.TableText

/-! # Rows read back from their lines

A line splits into its nine fields, and each field is read for itself: a whole number, the token of
a state, or a number as it was shown. What is read tells the row up to the last place that is
shown. -/
namespace DiveTable

open Version (IsNumeral)

inductive Shown where
  | decimal (d : PlainDecimal)
  | infinite (negative : Bool)
  | notANumber

namespace Shown

def ofText? (text : List Char) : Option Shown :=
  match PlainDecimal.ofText? text with
  | some d => some (.decimal d)
  | none =>
    if text = "NaN".toList then some .notANumber
    else if text = "inf".toList then some (.infinite false)
    else if text = "-inf".toList then some (.infinite true)
    else none

def ofField? (field : List Char) : Option (Option Shown) :=
  if field = [] then some none else (ofText? field).map some

/-- What is shown of a number with some decimal places. -/
inductive Shows (places : ℕ) (x : Binary64) : Shown → Prop
  | decimal {d : PlainDecimal} (finite : x.isFinite = true)
    (near : |d.value - x.value| ≤ 1 / 2 / tenTo places) : Shows places x (.decimal d)
  | infinite (h : x.isInfinite = true) : Shows places x (.infinite x.negative)
  | notANumber (h : x.isNaN = true) : Shows places x .notANumber

theorem ofText_fixedText (x : Binary64) (places : ℕ) :
    ∃ shown, ofText? (x.fixedText places).toList = some shown ∧ shown.Shows places x := by
  rcases x.finite_or_special with finite | infinite | nan
  · refine ⟨_, ?_, .decimal finite (PlainDecimal.value_ofParts_near x places)⟩
    rw [ofText?, Binary64.fixedText_eq_text finite, PlainDecimal.ofText_text]
  · refine ⟨_, ?_, .infinite infinite⟩
    rw [Binary64.fixedText_of_infinite infinite]
    cases x.negative <;> rfl
  · refine ⟨_, ?_, .notANumber nan⟩
    rw [Binary64.fixedText_of_nan nan]
    rfl

theorem ofField_field (row : Row) (q : Quantity) :
    ∃ shown, ofField? (row.field q).toList = some shown ∧
      Option.Rel (Shows q.places) (row.get q) shown := by
  unfold Row.field
  cases value : row.get q with
  | none => exact ⟨none, rfl, .none⟩
  | some x =>
    obtain ⟨shown, read, shows'⟩ := ofText_fixedText x q.places
    have known : (x.fixedText q.places).toList ≠ [] := by
      intro empty
      rw [empty] at read
      cases read
    refine ⟨some shown, ?_, .some shows'⟩
    rw [optionalText, ofField?, if_neg known, read, Option.map_some]

end Shown

def wholeNumber? (text : List Char) : Option ℕ :=
  if IsNumeral text then some (Nat.ofDigitChars 10 text 0) else none

theorem wholeNumber_toDigits (n : ℕ) : wholeNumber? (Nat.toDigits 10 n) = some n := by
  rw [wholeNumber?, if_pos (PlainDecimal.isNumeral_toDigits n), Nat.ofDigitChars_ten_toDigits]

def DecoStatus.ofToken? (text : List Char) : Option DecoStatus :=
  [ndl, decoStop, safetyStop].find? fun status => status.token.toList = text

theorem DecoStatus.ofToken_token (status : DecoStatus) :
    ofToken? status.token.toList = some status := by
  cases status <;> decide

structure ShownRow where
  seconds : ℕ
  depth : Option Shown
  temperature : Option Shown
  ppo2 : Option Shown
  cns : Option Shown
  setpoint : Option Shown
  status : DecoStatus
  stopSeconds : ℕ
  stopDepth : Shown

namespace ShownRow

def get (s : ShownRow) : Quantity → Option Shown
  | .depth => s.depth
  | .temperature => s.temperature
  | .ppo2 => s.ppo2
  | .cns => s.cns
  | .setpoint => s.setpoint

def ofFields? : List (List Char) → Option ShownRow
  | [time, depth, temperature, ppo2, cns, setpoint, status, stopSeconds, stopDepth] => do
    let seconds ← wholeNumber? time
    let depth ← Shown.ofField? depth
    let temperature ← Shown.ofField? temperature
    let ppo2 ← Shown.ofField? ppo2
    let cns ← Shown.ofField? cns
    let setpoint ← Shown.ofField? setpoint
    let status ← DecoStatus.ofToken? status
    let stopSeconds ← wholeNumber? stopSeconds
    let stopDepth ← Shown.ofText? stopDepth
    return ⟨seconds, depth, temperature, ppo2, cns, setpoint, status, stopSeconds, stopDepth⟩
  | _ => none

def ofLine? (line : List Char) : Option ShownRow := ofFields? (splitAt ',' line)

structure Shows (row : Row) (s : ShownRow) : Prop where
  seconds : s.seconds = row.time.toNat / 1000
  reading : ∀ q, Option.Rel (Shown.Shows q.places) (row.get q) (s.get q)
  status : s.status = row.deco.status
  stopSeconds : s.stopSeconds = row.deco.seconds.toNat
  stopDepth : s.stopDepth.Shows 2 row.deco.depth

theorem ofFields_fields (row : Row) :
    ∃ s, ofFields? (row.fields.map String.toList) = some s ∧ Shows row s := by
  obtain ⟨depth, readDepth, isDepth⟩ := Shown.ofField_field row .depth
  obtain ⟨temperature, readTemperature, isTemperature⟩ := Shown.ofField_field row .temperature
  obtain ⟨ppo2, readPpo2, isPpo2⟩ := Shown.ofField_field row .ppo2
  obtain ⟨cns, readCns, isCns⟩ := Shown.ofField_field row .cns
  obtain ⟨setpoint, readSetpoint, isSetpoint⟩ := Shown.ofField_field row .setpoint
  obtain ⟨stopDepth, readStop, isStop⟩ := Shown.ofText_fixedText row.deco.depth 2
  refine ⟨⟨row.seconds, depth, temperature, ppo2, cns, setpoint, row.deco.status,
    row.deco.seconds.toNat, stopDepth⟩, ?_, rfl, ?_, rfl, rfl, isStop⟩
  · simp [Row.fields, ofFields?, wholeNumber_toDigits, DecoStatus.ofToken_token, readDepth,
      readTemperature, readPpo2, readCns, readSetpoint, readStop]
  · intro q
    cases q
    · exact isDepth
    · exact isTemperature
    · exact isPpo2
    · exact isCns
    · exact isSetpoint

theorem ofLine_line (row : Row) : ∃ s, ofLine? row.line.toList = some s ∧ Shows row s := by
  rw [ofLine?, Row.splitAt_line]
  exact ofFields_fields row

theorem isSome_of_rel {α β : Type} {r : α → β → Prop} {a : Option α} {b : Option β}
    (h : Option.Rel r a b) : a.isSome = b.isSome := by
  cases h <;> rfl

/-- Rows with one line agree on all that is shown in full. -/
theorem agree_of_line {row other : Row} (same : other.line = row.line) :
    other.seconds = row.seconds ∧ (∀ q, (other.get q).isSome = (row.get q).isSome) ∧
      other.deco.status = row.deco.status ∧ other.deco.seconds = row.deco.seconds := by
  obtain ⟨s, read, isRow⟩ := ofLine_line row
  obtain ⟨s', read', isOther⟩ := ofLine_line other
  rw [same, read] at read'
  obtain rfl := Option.some.inj read'
  refine ⟨isOther.seconds.symm.trans isRow.seconds, ?_, isOther.status.symm.trans isRow.status, ?_⟩
  · intro q
    rw [isSome_of_rel (isOther.reading q), isSome_of_rel (isRow.reading q)]
  · exact UInt32.toNat_inj.1 (isOther.stopSeconds.symm.trans isRow.stopSeconds)

/-- A line has the nine fields of its row between its commas, and from them alone the row is read
back: its whole seconds, which of its values are known and each of them up to half a unit of its
last place, and its stop. -/
theorem row_of_line (row : Row) :
    splitAt ',' row.line.toList = row.fields.map String.toList ∧
    row.fields.length = 9 ∧
    (∀ field ∈ row.fields, ∀ c ∈ [',', '"', '\r', '\n'], c ∉ field.toList) ∧
    (∃ s, ofLine? row.line.toList = some s ∧ Shows row s) ∧
    ∀ other : Row, other.line = row.line →
      other.seconds = row.seconds ∧ (∀ q, (other.get q).isSome = (row.get q).isSome) ∧
        other.deco.status = row.deco.status ∧ other.deco.seconds = row.deco.seconds := by
  refine ⟨row.splitAt_line, rfl, ?_, ofLine_line row, fun _ => agree_of_line⟩
  intro field mem c special
  have isSpecial : ∀ c ∈ [',', '"', '\r', '\n'], Csv.isSpecial c = true := by
    simp [Csv.isSpecial]
  exact Csv.not_mem_of_plain (Csv.isPlain_of_mem_fields field mem) (isSpecial c special)

end ShownRow

end DiveTable
