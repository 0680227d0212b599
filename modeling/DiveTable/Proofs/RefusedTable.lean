import DiveTable.Proofs.ExportSteps
import DiveTable.Proofs.QuotedText

/-! # Tables that are refused

A sink that fails every write is found out whatever the items are: while records are written if the
table is more than the buffer holds back, and when the buffer is emptied at the end if it is not.
An export whose file is a device without room ends in the same way. -/
namespace DiveTable

open DiveTable.Tree (storage)

namespace Tree

/-- An export that opens a device without room for its table, once the missing directories are
made. -/
structure MeetsDevice (tree : Tree) (path input : String) (made : Tree) (place : Place) :
    Prop where
  notSame : tree.sameFile path input = false
  prepared : prepareParent storage path tree = (none, made)
  target : made.findTarget path = .ok (some place)
  device : made.node? place = some .fullDevice

theorem MeetsDevice.create_eq {tree made : Tree} {path input : String} {place : Place}
    (h : MeetsDevice tree path input made place) : made.create path = .ok made := by
  rw [create, h.target]
  dsimp only
  rw [h.device]

theorem MeetsDevice.write_eq {tree made : Tree} {path input : String} {place : Place}
    (h : MeetsDevice tree path input made place) (text : String) :
    made.write path text = .error .noSpace := by
  rw [write, find_of_findTarget h.target h.device]

theorem exportTo_of_device {tree made : Tree} {input : String} {outputDir : Option String}
    {place : Place} (h : MeetsDevice tree (Path.exportPath input outputDir) input made place)
    (items : List (Except Fault Event)) (debug : Bool) :
    (exportTo storage items input outputDir debug tree).2 = made ∧
      (exportTo storage items input outputDir debug tree).1.outcome =
        .error (.ofFault ("Failed to write CSV file: " ++ quoted (Path.exportPath input outputDir))
          (refusal OsFault.noSpace.text
            (tableText (Accumulator.rows (Items.events items))))) := by
  rw [exportTo_storage]
  simp only [h.notSame, h.prepared, h.create_eq, Bool.false_eq_true, if_false]
  exact writeTable_of_refused items (h.write_eq _) debug

end Tree

theorem text_of_convert {debug : Bool} {items : List (Except Fault Event)} {summary : Summary}
    {text : String} (h : (convert debug items .empty).outcome = .ok (summary, .memory text)) :
    text = tableText (Accumulator.rows (Items.events items)) := by
  have table := (convert_memory debug items "").symm.trans h
  obtain ⟨-, arrived⟩ := Prod.mk.inj (Except.ok.inj table)
  rw [← Sink.memory.inj arrived, String.empty_append]

/-- Each row of a table has a character at least, the one that ends its line. -/
theorem length_le_rowsText (rows : List Row) : rows.length ≤ (rowsText rows).utf8ByteSize := by
  induction rows with
  | nil => exact Nat.zero_le _
  | cons row rest ih =>
    have whole : rowsText (row :: rest) = row.line ++ "\n" ++ rowsText rest := by
      simp [rowsText]
    have ending : "\n".utf8ByteSize = 1 := rfl
    rw [whole, List.length_cons, String.utf8ByteSize_append, String.utf8ByteSize_append, ending]
    omega

def samplesAtZero (count : Nat) : List (Except Fault Event) :=
  List.replicate count (.ok (.time 0))

theorem le_size_samplesAtZero (count : Nat) :
    count ≤ (tableText (Accumulator.rows (Items.events (samplesAtZero count)))).utf8ByteSize := by
  have events : Items.events (samplesAtZero count) = List.replicate count (.time 0) := by
    induction count with
    | zero => rfl
    | succ count ih => exact congrArg (.time 0 :: ·) ih
  have rows : (Accumulator.rows (Items.events (samplesAtZero count))).length = count := by
    rw [Accumulator.length_rows, events, List.countP_replicate]
    rfl
  have text := length_le_rowsText (Accumulator.rows (Items.events (samplesAtZero count)))
  have split := tableText_append [] (Accumulator.rows (Items.events (samplesAtZero count)))
  rw [List.nil_append] at split
  rw [split, String.utf8ByteSize_append]
  omega

/-- No items hide a sink that fails its writes: the conversion ends with the reason of the sink,
and an export with the path of its table and the reason of the device. Which fault it is depends on
the length of the table alone. -/
theorem failing_sink_is_reported (debug : Bool) (items : List (Except Fault Event)) :
    ∃ summary text, (convert debug items .empty).outcome = .ok (summary, .memory text) ∧
      (∀ sink reason, Sink.Refuses sink reason →
        (Writer.capacity < text.utf8ByteSize →
          (convert debug items sink).outcome = .error (.notWritten reason)) ∧
        (text.utf8ByteSize ≤ Writer.capacity →
          (convert debug items sink).outcome = .error (.io reason))) ∧
      ∀ (tree made : Tree) (input : String) (outputDir : Option String) (place : Place),
        let path := Path.exportPath input outputDir
        tree.MeetsDevice path input made place →
        ∃ named causes, (exportTo storage items input outputDir debug tree).1.outcome =
            .error ⟨("Failed to write CSV file: " ++ named) :: causes⟩ ∧
          Quotes path named ∧ (∀ other, Quotes other named → other = path) ∧
          ((∀ c ∈ path.toList, c ≠ '"' ∧ c ≠ '\\' ∧ isUnprintable c = false) →
            named = "\"" ++ path ++ "\"") ∧
          (Writer.capacity < text.utf8ByteSize →
            causes = ["Export error: No space left on device (os error 28)"]) ∧
          (text.utf8ByteSize ≤ Writer.capacity →
            causes = ["I/O error: No space left on device (os error 28)",
              "No space left on device (os error 28)"]) := by
  have table := convert_memory debug items ""
  rw [String.empty_append] at table
  refine ⟨_, _, table, ?_, ?_⟩
  · intro sink reason refuses
    have refused := convert_of_refuses refuses debug items
    constructor
    · intro large
      rw [refused, refusal_of_large large]
    · intro fits
      rw [refused, refusal_of_fits fits]
  · intro tree made input outputDir place path meets
    obtain ⟨-, failed⟩ := Tree.exportTo_of_device meets items debug
    have quotes := quotes_quoted path
    refine ⟨quoted path, _, failed, quotes, fun other names => names.unique quotes, quotes.of_plain,
      ?_, ?_⟩
    · intro large
      rw [refusal_of_large large]
      rfl
    · intro fits
      rw [refusal_of_fits fits]
      rfl

namespace Tree

def dumpAndDevice : Tree :=
  { entries := [(["dives"], .directory), (["dives", "a.dsf"], .file [0x7B, 0x7D]),
      (["dives", "a.csv"], .fullDevice)]
    current := ["dives"] }

theorem meetsDevice_dumpAndDevice :
    MeetsDevice dumpAndDevice (Path.exportPath "a.dsf" none) "a.dsf" dumpAndDevice
      ["dives", "a.csv"] :=
  ⟨by decide +kernel, by rfl, by rfl, by decide +kernel⟩

theorem failing_sink_is_reported_dumpAndDevice :
    (convert true [.error .emptyInput] (.refusing "no room")).outcome = .error (.io "no room") ∧
      (convert true (samplesAtZero 9000) (.refusing "no room")).outcome =
        .error (.notWritten "no room") ∧
      (exportTo storage [.error .emptyInput] "a.dsf" none true dumpAndDevice).1.outcome =
        .error ⟨["Failed to write CSV file: \"a.csv\"",
          "I/O error: No space left on device (os error 28)",
          "No space left on device (os error 28)"]⟩ := by
  obtain ⟨summary, text, table, refused, failed⟩ :=
    failing_sink_is_reported true [.error .emptyInput]
  obtain ⟨summary', text', table', refused', -⟩ :=
    failing_sink_is_reported true (samplesAtZero 9000)
  have written := text_of_convert table
  have written' := text_of_convert table'
  have fits : text.utf8ByteSize ≤ Writer.capacity := by
    rw [written]
    decide +kernel
  have large : Writer.capacity < text'.utf8ByteSize := by
    rw [written']
    exact Nat.lt_of_lt_of_le (by decide) (le_size_samplesAtZero 9000)
  refine ⟨?_, ?_, ?_⟩
  · exact (refused (.refusing "no room") "no room" (Sink.refuses_refusing _)).2 fits
  · exact (refused' (.refusing "no room") "no room" (Sink.refuses_refusing _)).1 large
  · obtain ⟨named, causes, outcome, -, -, plain, -, small⟩ :=
      failed _ _ "a.dsf" none _ meetsDevice_dumpAndDevice
    have path : Path.exportPath "a.dsf" none = "a.csv" := by decide +kernel
    have letters : "a.csv".toList.all
        (fun c => c != '"' && c != '\\' && !isUnprintable c) = true := by
      decide +kernel
    rw [outcome, small fits, plain (by simpa [path] using letters), path]
    rfl

end Tree

end DiveTable
