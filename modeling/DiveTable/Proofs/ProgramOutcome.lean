import DiveTable.CommandLine.Program
import DiveTable.Proofs.AlikeTrees
import DiveTable.Proofs.SampleMeaning
import DiveTable.Proofs.TruncatedTable

/-! # How a run of the program ends

The exit tells whether the whole dump became a table, and the lines and the tree agree with it. A
fault in the middle of the stream leaves a table, and still is a failure of the run. -/
namespace DiveTable

open DiveTable.Tree (storage)

/-- What an input is to the program: a file with bytes in it that are accepted as a dump. -/
def Tree.Holds (tree : Tree) (input : String) (debug : Bool) (dump : Dump) : Prop :=
  ∃ bytes, tree.read input = .ok bytes ∧ bytes ≠ [] ∧ (Dump.read debug bytes).outcome = .ok dump

theorem Tree.Holds.unique {tree : Tree} {input : String} {debug : Bool} {dump other : Dump}
    (h : tree.Holds input debug dump) (k : tree.Holds input debug other) : dump = other := by
  obtain ⟨bytes, read, -, accepted⟩ := h
  obtain ⟨bytes', read', -, accepted'⟩ := k
  obtain rfl := Except.ok.inj (read.symm.trans read')
  exact Except.ok.inj (accepted.symm.trans accepted')

theorem openDiveFile_of_error {tree : Tree} {path : String} {fault : OsFault}
    (h : tree.read path = .error fault) (debug : Bool) :
    openDiveFile storage path debug tree =
      (.fail (.ofOsFault ("Cannot open file " ++ quoted path) fault), tree) := by
  have read : storage.read path tree = (.error fault, tree) := Prod.ext h rfl
  unfold openDiveFile readDiveFile
  rw [Tree.bind_apply, Tree.bind_apply, read]
  rfl

theorem openDiveFile_of_empty {tree : Tree} {path : String} (h : tree.read path = .ok [])
    (debug : Bool) :
    openDiveFile storage path debug tree =
      (⟨if debug then sizeRemarks 0 else [], .error ⟨["File " ++ quoted path ++ " is empty"]⟩⟩,
        tree) := by
  have read : storage.read path tree = (.ok [], tree) := Prod.ext h rfl
  unfold openDiveFile readDiveFile
  rw [Tree.bind_apply, Tree.bind_apply, read]
  dsimp only
  rw [if_pos rfl]
  show (Trace.mk ((if debug then sizeRemarks 0 else []) ++ []) _, tree) = _
  rw [List.append_nil]

theorem openDiveFile_of_bytes {tree : Tree} {path : String} {bytes : List UInt8}
    (h : tree.read path = .ok bytes) (something : bytes ≠ []) (debug : Bool) :
    openDiveFile storage path debug tree =
      (⟨(if debug then sizeRemarks bytes.length else []) ++ (Dump.read debug bytes).printed,
        (Dump.read debug bytes).outcome.mapError
          (.ofFault ("Failed to create parser for " ++ quoted path))⟩, tree) := by
  have read : storage.read path tree = (.ok bytes, tree) := Prod.ext h rfl
  unfold openDiveFile readDiveFile
  rw [Tree.bind_apply, Tree.bind_apply, read]
  dsimp only
  rw [if_neg something]
  show (Trace.mk ((if debug then sizeRemarks bytes.length else []) ++ [] ++
    (Dump.read debug bytes).printed) _, tree) = _
  rw [List.append_nil]
  rfl

/-- Opening a file leaves the tree, and gives a dump if the file holds one. -/
theorem openDiveFile_cases (tree : Tree) (input : String) (debug : Bool) :
    (openDiveFile storage input debug tree).2 = tree ∧
      (((∀ dump, ¬tree.Holds input debug dump) ∧
          ∃ failure, (openDiveFile storage input debug tree).1.outcome = .error failure) ∨
        ∃ dump, tree.Holds input debug dump ∧
          (openDiveFile storage input debug tree).1.outcome = .ok dump) := by
  cases read : tree.read input with
  | error fault =>
    rw [openDiveFile_of_error read]
    refine ⟨rfl, .inl ⟨?_, _, rfl⟩⟩
    rintro dump ⟨bytes, found, -⟩
    cases read.symm.trans found
  | ok bytes =>
    by_cases empty : bytes = []
    · subst empty
      rw [openDiveFile_of_empty read]
      refine ⟨rfl, .inl ⟨?_, _, rfl⟩⟩
      rintro dump ⟨bytes, found, something, -⟩
      exact something (Except.ok.inj (read.symm.trans found)).symm
    · rw [openDiveFile_of_bytes read empty]
      refine ⟨rfl, ?_⟩
      dsimp only
      cases accepted : (Dump.read debug bytes).outcome with
      | error fault =>
        refine .inl ⟨?_, _, rfl⟩
        rintro dump ⟨bytes', found, -, ok⟩
        obtain rfl := Except.ok.inj (read.symm.trans found)
        cases accepted.symm.trans ok
      | ok dump => exact .inr ⟨dump, ⟨bytes, read, empty, accepted⟩, rfl⟩

/-- Inputs that tell of the same dive, but for its date, its depth and its duration, which either
may lack. -/
structure SameDive (bytes bytes' : List UInt8) : Prop where
  layout : identify bytes = identify bytes'
  documents : ∃ document document', Document.parse bytes = .ok document ∧
    Document.parse bytes' = .ok document' ∧
    document.formatVersion = document'.formatVersion ∧ document.vendor = document'.vendor ∧
    document.product = document'.product ∧ document.samples = document'.samples

theorem SameDive.read {bytes bytes' : List UInt8} (h : SameDive bytes bytes') (debug : Bool) :
    (Dump.read debug bytes).printed = (Dump.read debug bytes').printed ∧
      ((∃ fault, (Dump.read debug bytes).outcome = .error fault ∧
        (Dump.read debug bytes').outcome = .error fault) ∨
      ∃ dump dump', (Dump.read debug bytes).outcome = .ok dump ∧
        (Dump.read debug bytes').outcome = .ok dump' ∧
        dump.device = dump'.device ∧ dump.samples = dump'.samples) := by
  obtain ⟨document, document', parsed, parsed', version, vendor, product, samples⟩ := h.documents
  rw [Dump.read, Dump.read, h.layout, Dump.parse_of_document parsed,
    Dump.parse_of_document parsed']
  cases identify bytes' with
  | error fault =>
    have stopped : (Trace.ofExcept (.error fault) : Trace Fault SourceFormat).outcome =
      .error fault := rfl
    rw [Trace.printed_bind_error stopped, Trace.printed_bind_error stopped]
    exact ⟨rfl, .inl ⟨fault, rfl, rfl⟩⟩
  | ok format =>
    rcases Dump.ofDocument_of_same version vendor product with
      ⟨fault, refused, refused'⟩ | ⟨dump, dump', accepted, accepted', device, -⟩
    · rw [refused, refused']
      exact ⟨rfl, .inl ⟨fault, rfl, rfl⟩⟩
    · rw [(Dump.ofDocument_eq_ok accepted).2.2.2.symm,
        (Dump.ofDocument_eq_ok accepted').2.2.2.symm] at samples
      rw [accepted, accepted']
      refine ⟨?_, .inr ⟨dump, dump', rfl, rfl, device, samples⟩⟩
      show (if debug then _ else _) ++ ([] ++ ((if debug then ["Created decoder for " ++
        dump.device.text ++ " (" ++ dump.samples.length.repr ++ " samples)"] else []) ++ [])) = _
      rw [device, samples]
      rfl

theorem SameDive.ne_nil {bytes bytes' : List UInt8} (h : SameDive bytes bytes') :
    bytes ≠ [] ∧ bytes' ≠ [] := by
  obtain ⟨document, document', parsed, parsed', -⟩ := h.documents
  constructor
  · rintro rfl
    cases parsed
  · rintro rfl
    cases parsed'

/-- A fault of the stream and its text, as the sample it names has them: the sample stands for
nothing, or its time is before that of the time sample in front of it. -/
inductive Dump.FaultAt (dump : Dump) (k : Nat) : Fault → String → Prop
  | invalid {raw : Json.Value} {why : String} (sample : dump.samples[k]? = some raw)
      (refused : Sample.Refused raw why) :
      FaultAt dump k (.invalidSample k why) ("Invalid sample #" ++ k.repr ++ ": " ++ why)
  | backwards {raw : Json.Value} {previous current : UInt32} (sample : dump.samples[k]? = some raw)
      (last : ((dump.samples.take k).filterMap Sample.time?).getLast? = some previous)
      (time : Sample.StandsFor raw (.time current)) (back : current < previous) :
      FaultAt dump k (.timeOrder k previous current)
        ("Sample #" ++ k.repr ++ " goes back in time (" ++ current.toNat.repr ++ " ms after " ++
          previous.toNat.repr ++ " ms)")

theorem Dump.faultAt_of_item {dump : Dump} {k : Nat} {fault : Fault}
    (stops : dump.items[k]? = some (.error fault)) : dump.FaultAt k fault fault.message := by
  obtain ⟨raw, sample⟩ : ∃ raw, dump.samples[k]? = some raw := by
    have inside := (List.getElem?_eq_some_iff.1 stops).1
    have noLonger := (Cursor.delivered_iff.2 (Eq.refl dump.items)).no_longer
    exact ⟨_, List.getElem?_eq_getElem (Nat.lt_of_lt_of_le inside noLonger)⟩
  obtain ⟨delivered, decodes, count, item⟩ :=
    Cursor.item_of_reached sample (Cursor.reached_of_item stops)
  have judged : Cursor.verdict delivered raw = .error fault :=
    Option.some.inj (item.symm.trans stops)
  rcases Cursor.verdict_cases delivered raw with
    ⟨event, -, -, hv⟩ | ⟨other, decoded, hv⟩ | ⟨previous, current, decoded, last, back, hv⟩
  · cases hv.symm.trans judged
  · obtain rfl := Except.error.inj (hv.symm.trans judged)
    obtain ⟨reason, refused, rfl⟩ := Sample.decode_eq_error.1 decoded
    rw [count]
    exact .invalid sample (Sample.refused_iff.2 ⟨reason, refused, rfl⟩)
  · obtain rfl := Except.error.inj (hv.symm.trans judged)
    rw [count]
    refine .backwards sample ?_ (Sample.eventOfValue_iff.1 (Sample.decode_eq_ok.1 decoded)) back
    rw [decodes.filterMap_time]
    exact last

namespace CommandLine

def dataLines (text : String) : List (List Char) := (splitAt '\n' text.toList).tail.dropLast

theorem length_dataLines (rows : List Row) : (dataLines (tableText rows)).length = rows.length := by
  simp [dataLines, splitAt_tableText, tableLines]

def startLines (input : String) (options : Options) : List Line :=
  if options.debug then
    [.out ("Input file: " ++ quoted input), .out (optionsText options.outputDir)]
  else []

def exportOutcome : Except Failure Report → Outcome
  | .error failure => failed failure
  | .ok report => reportOutcome report

theorem exportDump_storage (tree : Tree) (dump : Dump) (input : String) (options : Options) :
    exportDump storage dump input options tree =
      let exported := exportTo storage dump.items input options.outputDir options.debug tree
      ((exportOutcome exported.1.outcome).after (exported.1.printed.map .out), exported.2) := by
  unfold exportDump
  rw [Tree.bind_apply]
  generalize exportTo storage dump.items input options.outputDir options.debug tree = exported
  obtain ⟨⟨printed, outcome⟩, after⟩ := exported
  cases outcome <;> rfl

theorem convertInput_of_refused {tree : Tree} {input : String} {options : Options}
    {printed : List String} {failure : Failure}
    (h : openDiveFile storage input options.debug tree = (⟨printed, .error failure⟩, tree)) :
    convertInput storage input options tree =
      ((failed failure).after (startLines input options ++ printed.map .out), tree) := by
  unfold convertInput
  dsimp only
  rw [Tree.bind_apply, h]
  rfl

theorem convertInput_of_opened {tree : Tree} {input : String} {options : Options}
    {printed : List String} {dump : Dump}
    (h : openDiveFile storage input options.debug tree = (⟨printed, .ok dump⟩, tree)) :
    convertInput storage input options tree =
      let exported := exportTo storage dump.items input options.outputDir options.debug tree
      (((exportOutcome exported.1.outcome).after (exported.1.printed.map .out)).after
        (startLines input options ++ printed.map .out ++
          .out ("Successfully created parser for " ++ input ++ ".\n") ::
            dumpLines dump options.debug), exported.2) := by
  unfold convertInput
  dsimp only
  rw [Tree.bind_apply, h]
  dsimp only
  rw [Tree.bind_apply, exportDump_storage]
  rfl

theorem run_of_input {arguments : List String} {options : Options} {input : String}
    (asked : Request.ofArguments arguments = .convert options)
    (given : options.input = some input) :
    run storage arguments = convertInput storage input options := by
  unfold run
  rw [asked]
  dsimp only
  rw [given]

namespace Outcome

theorem after_after (outcome : Outcome) (near far : List Line) :
    (outcome.after near).after far = outcome.after (far ++ near) := by
  simp [after]

theorem exit_after (outcome : Outcome) (front : List Line) :
    (outcome.after front).exit = outcome.exit := rfl

theorem mem_after {outcome : Outcome} {line : Line} (h : line ∈ outcome.lines)
    (front : List Line) : line ∈ (outcome.after front).lines :=
  List.mem_append_right front h

end Outcome

/-- Either nothing comes of the input, or it is a dump and all depends on its export. -/
theorem convertInput_cases (tree : Tree) (input : String) (options : Options) :
    ((∀ dump, ¬tree.Holds input options.debug dump) ∧
      ∃ failure front, convertInput storage input options tree =
        ((failed failure).after front, tree)) ∨
    ∃ dump front, tree.Holds input options.debug dump ∧
      convertInput storage input options tree =
        let exported := exportTo storage dump.items input options.outputDir options.debug tree
        ((exportOutcome exported.1.outcome).after front, exported.2) := by
  obtain ⟨left, opened⟩ := openDiveFile_cases tree input options.debug
  generalize found : openDiveFile storage input options.debug tree = result at left opened
  obtain ⟨⟨printed, outcome⟩, after⟩ := result
  obtain rfl : after = tree := left
  rcases opened with ⟨noDump, failure, rfl⟩ | ⟨dump, holds, rfl⟩
  · exact .inl ⟨noDump, failure, _, convertInput_of_refused found⟩
  · have converted := convertInput_of_opened found
    dsimp only at converted
    rw [Outcome.after_after] at converted
    exact .inr ⟨dump, _, holds, converted⟩

theorem exit_exportOutcome {outcome : Except Failure Report} :
    (exportOutcome outcome).exit = 0 ↔
      ∃ report, outcome = .ok report ∧ report.summary.fault = none := by
  cases outcome with
  | error failure => simp [exportOutcome, failed]
  | ok report =>
    rw [exportOutcome, reportOutcome]
    cases fault : report.summary.fault <;> simp [fault]

def SaysError (outcome : Outcome) : Prop := ∃ text, .err ("Error" ++ text) ∈ outcome.lines

theorem saysError_failed (failure : Failure) : SaysError (failed failure) := by
  refine ⟨": " ++ failure.message, ?_⟩
  rw [← String.append_assoc]
  simp [failed]

theorem exportOutcome_cases (outcome : Except Failure Report) :
    (exportOutcome outcome).exit = 0 ∨
      (exportOutcome outcome).exit = 1 ∧ SaysError (exportOutcome outcome) := by
  cases outcome with
  | error failure => exact .inr ⟨rfl, saysError_failed failure⟩
  | ok report =>
    rw [exportOutcome, reportOutcome]
    cases report.summary.fault with
    | none => exact .inl rfl
    | some fault =>
      refine .inr ⟨rfl, " during sample processing: " ++ fault.message, ?_⟩
      rw [← String.append_assoc]
      simp

section

variable (tree : Tree) (input : String) (options : Options)

theorem exit_convertInput :
    (convertInput storage input options tree).1.exit = 0 ↔
      ∃ dump report, tree.Holds input options.debug dump ∧
        (exportTo storage dump.items input options.outputDir options.debug tree).1.outcome =
          .ok report ∧ ∀ fault, .error fault ∉ dump.items := by
  rcases convertInput_cases tree input options with
    ⟨noDump, failure, front, result⟩ | ⟨dump, front, holds, result⟩
  · rw [result]
    constructor
    · intro zero
      cases zero
    · rintro ⟨dump, report, holds, -⟩
      exact absurd holds (noDump dump)
  · rw [result]
    show (exportOutcome _).exit = 0 ↔ _
    rw [exit_exportOutcome]
    constructor
    · rintro ⟨report, exported, sound⟩
      refine ⟨dump, report, holds, exported, Items.fault?_eq_none_iff.1 ?_⟩
      rw [(Tree.exported_of_ok exported).1] at sound
      exact sound
    · rintro ⟨other, report, holds', exported, sound⟩
      obtain rfl := holds.unique holds'
      refine ⟨report, exported, ?_⟩
      rw [(Tree.exported_of_ok exported).1]
      exact Items.fault?_eq_none_iff.2 sound

theorem convertInput_failed :
    (convertInput storage input options tree).1.exit = 0 ∨
      (convertInput storage input options tree).1.exit = 1 ∧
        SaysError (convertInput storage input options tree).1 := by
  rcases convertInput_cases tree input options with
    ⟨noDump, failure, front, result⟩ | ⟨dump, front, holds, result⟩
  · rw [result]
    obtain ⟨text, said⟩ := saysError_failed failure
    exact .inr ⟨rfl, text, Outcome.mem_after said front⟩
  · rw [result]
    rcases exportOutcome_cases
        (exportTo storage dump.items input options.outputDir options.debug tree).1.outcome with
      zero | ⟨one, text, said⟩
    · exact .inl zero
    · exact .inr ⟨one, text, Outcome.mem_after said front⟩

theorem convertInput_of_not_holds (h : ∀ dump, ¬tree.Holds input options.debug dump) :
    (convertInput storage input options tree).2 = tree := by
  rcases convertInput_cases tree input options with
    ⟨-, failure, front, result⟩ | ⟨dump, front, holds, -⟩
  · rw [result]
  · exact absurd holds (h dump)

variable {tree input options}

theorem convertInput_of_holds {dump : Dump} (holds : tree.Holds input options.debug dump) :
    ∃ front, convertInput storage input options tree =
      let exported := exportTo storage dump.items input options.outputDir options.debug tree
      ((exportOutcome exported.1.outcome).after front, exported.2) := by
  rcases convertInput_cases tree input options with
    ⟨noDump, -⟩ | ⟨other, front, holds', result⟩
  · exact absurd holds (noDump dump)
  · obtain rfl := holds.unique holds'
    exact ⟨front, result⟩

/-- A fault in the stream leaves the table of the samples in front of it, and both are named. -/
theorem table_of_fault {dump : Dump} {k : Nat} {fault : Fault} {report : Report}
    (holds : tree.Holds input options.debug dump)
    (stops : dump.items[k]? = some (.error fault))
    (exported : (exportTo storage dump.items input options.outputDir options.debug tree).1.outcome =
      .ok report) :
    let path := Path.exportPath input options.outputDir
    let result := convertInput storage input options tree
    ∃ summary text named,
      (convert options.debug (dump.cut k).items .empty).outcome = .ok (summary, .memory text) ∧
      result.2.read path = .ok (Utf8.encode text.toList) ∧ dump.FaultAt k fault named ∧
      .err ("Error during sample processing: " ++ named) ∈ result.1.lines ∧
      .err ("Warning: Output is truncated after " ++ (dataLines text).length.repr ++ " rows: " ++
        path) ∈ result.1.lines := by
  intro path result
  obtain ⟨events, faulty, -⟩ := Dump.items_of_fault stops
  obtain ⟨rfl, left⟩ := Tree.exported_of_ok exported
  obtain ⟨front, run⟩ := convertInput_of_holds holds
  have table := convert_memory options.debug (dump.cut k).items ""
  rw [String.empty_append, ← events] at table
  have lines : (exportOutcome (.ok ⟨path, .ofItems dump.items⟩)).lines =
      [.out ("\nCSV file created: " ++ path),
        .err ("Error during sample processing: " ++ fault.message),
        .err ("Warning: Output is truncated after " ++
          (Accumulator.rows (Items.events dump.items)).length.repr ++ " rows: " ++ path)] := by
    simp only [exportOutcome, reportOutcome, Summary.ofItems, faulty]
  have said {line : Line} (h : line ∈ (exportOutcome (.ok ⟨path, .ofItems dump.items⟩)).lines) :
      line ∈ result.1.lines := by
    show line ∈ (convertInput storage input options tree).1.lines
    rw [run]
    dsimp only
    rw [exported]
    exact Outcome.mem_after h front
  refine ⟨_, _, _, table, ?_, Dump.faultAt_of_item stops, said (by simp [lines]), said ?_⟩
  · show (convertInput storage input options tree).2.read path = _
    rw [run]
    exact left
  · rw [length_dataLines, lines]
    simp

/-- The count that is printed behind a success is that of the lines in the file. -/
theorem rows_of_success (zero : (convertInput storage input options tree).1.exit = 0) :
    ∃ text, (convertInput storage input options tree).2.read
        (Path.exportPath input options.outputDir) = .ok (Utf8.encode text.toList) ∧
      .out ("Sample data written successfully (" ++ (dataLines text).length.repr ++ " rows).") ∈
        (convertInput storage input options tree).1.lines := by
  obtain ⟨dump, report, holds, exported, sound⟩ := (exit_convertInput tree input options).1 zero
  obtain ⟨rfl, left⟩ := Tree.exported_of_ok exported
  obtain ⟨front, run⟩ := convertInput_of_holds holds
  have faultless : Items.fault? dump.items = none := Items.fault?_eq_none_iff.2 sound
  rw [run]
  dsimp only
  refine ⟨_, left, ?_⟩
  rw [exported, length_dataLines]
  apply Outcome.mem_after
  simp only [exportOutcome, reportOutcome, Summary.ofItems, faultless]
  simp

end

def sizeLines (debug : Bool) (size : Nat) : List Line :=
  if debug then (sizeRemarks size).map .out else []

def metadataLines (dump : Dump) : List Line := dumpLines dump false

theorem dumpLines_eq (dump : Dump) (debug : Bool) :
    dumpLines dump debug =
      (if debug then [.out ("Device: " ++ dump.device.text)] else []) ++ metadataLines dump := by
  cases debug <;> rfl

/-- The lines of two runs on inputs of two sizes, the same but for what is shown in between. -/
def SayAlike (debug : Bool) (size size' : Nat) (shown shown' lines lines' : List Line) : Prop :=
  ∃ start more back, lines = start ++ sizeLines debug size ++ more ++ shown ++ back ∧
    lines' = start ++ sizeLines debug size' ++ more ++ shown' ++ back

theorem sayAlike_after {debug : Bool} {size size' : Nat} {shown shown' front front' : List Line}
    (start more : List Line)
    (h : front = start ++ sizeLines debug size ++ more ++ shown)
    (h' : front' = start ++ sizeLines debug size' ++ more ++ shown') (outcome : Outcome) :
    SayAlike debug size size' shown shown' (outcome.after front).lines
      (outcome.after front').lines := by
  subst h h'
  exact ⟨start, more, outcome.lines, rfl, rfl⟩

theorem map_remarks (debug : Bool) (size : Nat) (printed : List String) :
    ((if debug then sizeRemarks size else []) ++ printed).map Line.out =
      sizeLines debug size ++ printed.map .out := by
  cases debug <;> simp [sizeLines]

/-- Other metadata in the input, or none, change nothing but what is said of them. -/
theorem convertInput_of_sameDive {tree : Tree} {input : String} (options : Options) {place : Place}
    {bytes bytes' : List UInt8} (found : tree.find input = .ok (place, .file bytes))
    (dive : SameDive bytes bytes') :
    let tree' := tree.put place (.file bytes')
    let result := convertInput storage input options tree
    let result' := convertInput storage input options tree'
    result'.1.exit = result.1.exit ∧ Tree.Alike place result.2 result'.2 ∧
      Tree.KeptOrSame place tree tree' result.2 result'.2 ∧
      ∃ shown shown', SayAlike options.debug bytes.length bytes'.length shown shown'
          result.1.lines result'.1.lines ∧
        (shown = [] ∧ shown' = [] ∨ ∃ dump dump', tree.Holds input options.debug dump ∧
          tree'.Holds input options.debug dump' ∧ shown = metadataLines dump ∧
          shown' = metadataLines dump') := by
  intro tree'
  obtain ⟨-, -, there⟩ := Tree.find_eq_ok.1 found
  obtain ⟨something, something'⟩ := dive.ne_nil
  have alike : Tree.Alike place tree tree' := Tree.alike_put there bytes'
  have read : tree.read input = .ok bytes := by rw [Tree.read, found]
  have read' : tree'.read input = .ok bytes' := by
    refine alike.read_of_find found (Tree.node_put_self tree ?_ _)
    rintro rfl
    cases there
  have opened := openDiveFile_of_bytes read something options.debug
  have opened' := openDiveFile_of_bytes read' something' options.debug
  obtain ⟨printed, ⟨fault, refused, refused'⟩ |
    ⟨dump, dump', accepted, accepted', device, samples⟩⟩ := dive.read options.debug
  · rw [refused] at opened
    rw [refused', ← printed] at opened'
    rw [convertInput_of_refused opened, convertInput_of_refused opened', map_remarks, map_remarks]
    refine ⟨?_, alike, .inl ⟨rfl, rfl⟩, [], [], sayAlike_after (startLines input options)
      ((Dump.read options.debug bytes).printed.map .out) ?_ ?_ _, .inl ⟨rfl, rfl⟩⟩
    · simp only [Outcome.exit_after]
    · rw [List.append_nil, ← List.append_assoc]
    · rw [List.append_nil, ← List.append_assoc]
  · rw [accepted] at opened
    rw [accepted', ← printed] at opened'
    rw [convertInput_of_opened opened, convertInput_of_opened opened', map_remarks, map_remarks]
    have items : dump'.items = dump.items := by rw [Dump.items, Dump.items, samples]
    obtain ⟨same, left⟩ := Tree.agreeing_exportTo dump.items input options.outputDir options.debug
      tree tree' alike
    have kept := Tree.keptOrSame_exportTo alike dump.items input options.outputDir options.debug
    dsimp only
    rw [items, same, dumpLines_eq, dumpLines_eq, ← device]
    refine ⟨?_, left, kept, metadataLines dump, metadataLines dump',
      sayAlike_after (startLines input options)
        ((Dump.read options.debug bytes).printed.map .out ++
          .out ("Successfully created parser for " ++ input ++ ".\n") ::
            (if options.debug then [.out ("Device: " ++ dump.device.text)] else [])) ?_ ?_ _,
      .inr ⟨dump, dump', ⟨bytes, read, something, accepted⟩,
        ⟨bytes', read', something', accepted'⟩, rfl, rfl⟩⟩
    · simp only [Outcome.exit_after]
    · simp only [List.append_assoc, List.cons_append]
    · simp only [List.append_assoc, List.cons_append]

/-- A run with an input exits with zero just when the input holds a dump, its export succeeds and
no sample is faulty; otherwise it exits with one and says that there was an error. The tree and the
lines agree with the exit, and no metadata of the dive have a say in it. -/
theorem outcome_of_run (arguments : List String) (options : Options) (input : String) (tree : Tree)
    (asked : Request.ofArguments arguments = .convert options)
    (given : options.input = some input) :
    let path := Path.exportPath input options.outputDir
    let exported (dump : Dump) :=
      exportTo storage dump.items input options.outputDir options.debug tree
    let result := run storage arguments tree
    (result.1.exit = 0 ↔ ∃ dump report, tree.Holds input options.debug dump ∧
      (exported dump).1.outcome = .ok report ∧ ∀ fault, .error fault ∉ dump.items) ∧
    (result.1.exit = 0 ∨ result.1.exit = 1 ∧ SaysError result.1) ∧
    ((∀ dump, ¬tree.Holds input options.debug dump) → result.2 = tree) ∧
    (∀ dump k fault report, tree.Holds input options.debug dump →
      dump.items[k]? = some (.error fault) → (exported dump).1.outcome = .ok report →
      ∃ summary text named,
        (convert options.debug (dump.cut k).items .empty).outcome = .ok (summary, .memory text) ∧
        result.2.read path = .ok (Utf8.encode text.toList) ∧ dump.FaultAt k fault named ∧
        .err ("Error during sample processing: " ++ named) ∈ result.1.lines ∧
        .err ("Warning: Output is truncated after " ++ (dataLines text).length.repr ++
          " rows: " ++ path) ∈ result.1.lines) ∧
    (result.1.exit = 0 → ∃ text, result.2.read path = .ok (Utf8.encode text.toList) ∧
      .out ("Sample data written successfully (" ++ (dataLines text).length.repr ++ " rows).") ∈
        result.1.lines) ∧
    ∀ place bytes bytes', tree.find input = .ok (place, .file bytes) → SameDive bytes bytes' →
      let tree' := tree.put place (.file bytes')
      let result' := run storage arguments tree'
      result'.1.exit = result.1.exit ∧ Tree.Alike place result.2 result'.2 ∧
        Tree.KeptOrSame place tree tree' result.2 result'.2 ∧
        ∃ shown shown', SayAlike options.debug bytes.length bytes'.length shown shown'
            result.1.lines result'.1.lines ∧
          (shown = [] ∧ shown' = [] ∨ ∃ dump dump', tree.Holds input options.debug dump ∧
            tree'.Holds input options.debug dump' ∧ shown = metadataLines dump ∧
            shown' = metadataLines dump') := by
  rw [run_of_input asked given]
  refine ⟨exit_convertInput tree input options, convertInput_failed tree input options,
    convertInput_of_not_holds tree input options, ?_, rows_of_success, ?_⟩
  · intro dump k fault report holds stops exported
    exact table_of_fault holds stops exported
  · intro place bytes bytes' found dive
    exact convertInput_of_sameDive options found dive

def divesAlone : Tree :=
  { entries := [(["dives"], .directory), (["dives", "a.dsf"], .file smallDump)]
    current := ["dives"] }

theorem opens_divesAlone :
    Tree.Opens divesAlone (Path.exportPath "a.dsf" none) "a.dsf" divesAlone ["dives", "a.csv"] :=
  ⟨by decide +kernel, by rfl, by rfl, by decide +kernel, by decide +kernel⟩

theorem outcome_of_divesAlone :
    Request.ofArguments ["a.dsf"] = .convert ⟨false, none, some "a.dsf"⟩ ∧
      (run storage ["a.dsf"] divesAlone).1.exit = 1 ∧
      ∃ text, (run storage ["a.dsf"] divesAlone).2.read "a.csv" = .ok (Utf8.encode text) ∧
        .err ("Error during sample processing: " ++
            "Sample #4 goes back in time (900 ms after 1500 ms)") ∈
          (run storage ["a.dsf"] divesAlone).1.lines := by
  have asked : Request.ofArguments ["a.dsf"] = .convert ⟨false, none, some "a.dsf"⟩ := by
    decide +kernel
  obtain ⟨zero, ended, -, faulty, -, -⟩ := outcome_of_run ["a.dsf"] _ "a.dsf" divesAlone asked rfl
  have stopped : (Dump.read false smallDump).outcome.toOption.map
      (fun dump => Items.fault? dump.items) = some (some (.timeOrder 4 1500 900)) := by
    decide +kernel
  cases accepted : (Dump.read false smallDump).outcome with
  | error fault =>
    rw [accepted] at stopped
    cases stopped
  | ok dump =>
    rw [accepted] at stopped
    have stops : dump.items[(Items.events dump.items).length]? =
        some (.error (.timeOrder 4 1500 900)) := by
      have fault : Items.fault? dump.items = some (.timeOrder 4 1500 900) := Option.some.inj stopped
      rw [Items.getElem_length_events, fault]
      rfl
    have holds : divesAlone.Holds "a.dsf" false dump :=
      ⟨smallDump, by rfl, by decide +kernel, accepted⟩
    obtain ⟨-, exported⟩ := Tree.exportTo_of_opens opens_divesAlone dump.items false
    obtain ⟨-, text, named, -, left, told, said, -⟩ := faulty dump _ _ _ holds stops exported
    have failed : (run storage ["a.dsf"] divesAlone).1.exit ≠ 0 := by
      intro success
      obtain ⟨other, -, holds', -, sound⟩ := zero.1 success
      obtain rfl := holds.unique holds'
      exact sound _ (List.mem_of_getElem? stops)
    have words : named = "Sample #4 goes back in time (900 ms after 1500 ms)" := by
      generalize (Items.events dump.items).length = k at told
      cases told
      decide +kernel
    exact ⟨asked, (ended.resolve_left failed).1, text.toList, left, words ▸ said⟩

end CommandLine

end DiveTable
