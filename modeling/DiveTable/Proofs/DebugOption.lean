import DiveTable.CommandLine.Arguments

/-! # The debug option in front

Arguments are taken one after the other. Each but the debug option itself leaves that option alone,
and does the same behind it. So the option in front of other arguments changes no more of what they
ask for than the option itself. -/
namespace DiveTable

namespace CommandLine

namespace State

def loud (state : State) : State :=
  { state with options := { state.options with debug := true }, used := .debug :: state.used }

theorem pending_loud (state : State) : state.loud.pending = state.pending := rfl

theorem settle_ok {state settled : State} (h : state.settle = .ok settled) :
    settled.options.debug = state.options.debug ∧ state.loud.settle = .ok settled.loud := by
  unfold settle at h
  split at h
  · rename_i none
    cases h
    exact ⟨rfl, by rw [settle, loud, none]⟩
  · rename_i value pending
    cases h
    exact ⟨rfl, by rw [settle, loud, pending]; rfl⟩
  · cases h
  · rename_i dir pending
    split at h
    · cases h
    · rename_i unused
      cases h
      refine ⟨rfl, ?_⟩
      have unused' : .outputDir ∉ state.loud.used := by simpa [loud] using unused
      rw [settle, show state.loud.pending = _ from pending]
      exact if_neg unused'

theorem takeFlag_ok {state taken : State} {flag : Argument} (h : state.takeFlag flag = .ok taken) :
    flag ≠ .help ∧ flag ≠ .version ∧ taken.options.debug = true := by
  unfold takeFlag at h
  split at h
  · cases h
  · split at h
    · cases h
    · cases h
    · rename_i notHelp notVersion
      split at h
      · cases h
      · cases h
        exact ⟨notHelp, notVersion, rfl⟩

theorem takeShort_fails (state : State) (letter : Char) (rest : List Char) :
    ∃ request, state.takeShort (letter :: rest) = .error request := by
  have known : ∀ flag, Argument.ofShortName? letter = some flag →
      flag = .help ∨ flag = .version := by
    intro flag h
    unfold Argument.ofShortName? at h
    split at h
    · exact .inl (Option.some.inj h).symm
    · exact .inr (Option.some.inj h).symm
    · cases h
  unfold takeShort
  cases named : Argument.ofShortName? letter with
  | none => exact ⟨_, rfl⟩
  | some flag =>
    dsimp only
    cases taken : state.takeFlag flag with
    | error request => exact ⟨request, rfl⟩
    | ok behind =>
      obtain ⟨notHelp, notVersion, -⟩ := takeFlag_ok taken
      rcases known flag named with isHelp | isVersion
      · exact absurd isHelp notHelp
      · exact absurd isVersion notVersion

/-- What taking an argument does: it is the debug option itself, or it leaves that alone and could
as well stand behind it. -/
def Indifferent (isDebug : Prop) (state taken : State) (loud : Except Request State) : Prop :=
  (isDebug ∧ taken.options.debug = true) ∨
    taken.options.debug = state.options.debug ∧ loud = .ok taken.loud

theorem takeInput_ok {state taken : State} {value : String}
    (h : state.takeInput value = .ok taken) :
    taken.options.debug = state.options.debug ∧ state.loud.takeInput value = .ok taken.loud := by
  unfold takeInput at h
  split at h
  · cases h
  · rename_i first
    split at h
    · cases h
    · rename_i settled done
      obtain ⟨same, loudly⟩ := settle_ok done
      cases h
      refine ⟨same, ?_⟩
      unfold takeInput
      rw [loudly]
      exact if_neg first

theorem ofLongName_eq_some {name : String} {option : Argument}
    (h : Argument.ofLongName? name = some option) :
    option ∈ Argument.options ∧ option.longName = name := by
  have found := List.find?_some h
  exact ⟨List.mem_of_find?_eq_some h, beq_iff_eq.1 found⟩

theorem takeLong_ok {state taken : State} {name : String} {value : Option String}
    (h : state.takeLong name value = .ok taken) :
    Indifferent (name = "debug" ∧ value = none) state taken (state.loud.takeLong name value) := by
  unfold takeLong at h
  split at h
  · cases h
  · rename_i isDir
    right
    split at h
    · cases h
    · rename_i settled done
      obtain ⟨same, loudly⟩ := settle_ok done
      unfold takeLong
      rw [isDir]
      dsimp only at h ⊢
      rw [loudly]
      dsimp only
      split at h
      · rename_i given
        obtain ⟨same', loudly'⟩ := settle_ok h
        exact ⟨same'.trans same, (if_pos given).trans loudly'⟩
      · rename_i missing
        cases h
        exact ⟨same, if_neg missing⟩
  · rename_i flag notDir isFlag
    left
    split at h
    · cases h
    · obtain ⟨notHelp, notVersion, on⟩ := takeFlag_ok h
      obtain ⟨known, named⟩ := ofLongName_eq_some isFlag
      have isDebug : flag = .debug := by
        simp only [Argument.options, List.mem_cons, List.not_mem_nil, or_false] at known
        rcases known with debug | dir | help | version
        · exact debug
        · exact absurd dir notDir
        · exact absurd help notHelp
        · exact absurd version notVersion
      subst isDebug
      exact ⟨⟨named.symm, rfl⟩, on⟩

/-- The letters of an option with two hyphens, from which its name and its value are cut. -/
theorem eq_debug {letters : List Char}
    (name : String.ofList (letters.takeWhile (· != '=')) = "debug")
    (value : ((letters.dropWhile (· != '=')).tail?).map String.ofList = none) :
    letters = "debug".toList := by
  have noValue : letters.dropWhile (· != '=') = [] := by
    cases rest : letters.dropWhile (· != '=') with
    | nil => rfl
    | cons c rest' =>
      rw [rest] at value
      cases value
  rw [← List.takeWhile_append_dropWhile (p := (· != '=')) (l := letters), noValue, List.append_nil,
    ← name, String.toList_ofList]

theorem take_ok {state taken : State} {argument : String} (h : state.take argument = .ok taken) :
    Indifferent (argument = "--debug") state taken (state.loud.take argument) := by
  unfold take at h ⊢
  split at h
  · rename_i letters isLong
    dsimp only at h ⊢
    rcases takeLong_ok h with ⟨⟨name, value⟩, on⟩ | same
    · have isDebug := eq_debug name value
      refine .inl ⟨String.toList_inj.1 ?_, on⟩
      rw [isLong, isDebug]
      rfl
    · exact .inr same
  · rename_i letter rest notLong isShort
    obtain ⟨request, fails⟩ := takeShort_fails state letter rest
    cases fails.symm.trans h
  · rename_i notLong notShort
    right
    split at h
    · rename_i awaited
      cases h
      rw [pending_loud, awaited]
      exact ⟨rfl, rfl⟩
    · rename_i other
      obtain ⟨same, loudly⟩ := takeInput_ok h
      refine ⟨same, ?_⟩
      rw [pending_loud]
      split
      · rename_i awaited
        exact absurd awaited other
      · exact loudly

/-- More arguments, behind one that leaves the debug option alone. -/
theorem Indifferent.after_same {argument : String} {rest : List String} {state behind taken : State}
    {loud : Except Request State} (h : Indifferent ("--debug" ∈ rest) behind taken loud)
    (same : behind.options.debug = state.options.debug) :
    Indifferent ("--debug" ∈ argument :: rest) state taken loud := by
  rcases h with ⟨mem, on⟩ | ⟨same', loudly⟩
  · exact .inl ⟨List.mem_cons_of_mem _ mem, on⟩
  · exact .inr ⟨same'.trans same, loudly⟩

theorem takeAll_ok {state taken : State} {trailing : Bool} {arguments : List String}
    (h : state.takeAll trailing arguments = .ok taken) :
    Indifferent ("--debug" ∈ arguments) state taken (state.loud.takeAll trailing arguments) := by
  -- on the arguments, for every state: each of them is used on both sides before the rest
  induction arguments generalizing state trailing with
  | nil => exact .inr (settle_ok h)
  | cons argument rest ih =>
    unfold takeAll at h ⊢
    split at h
    · rename_i isTrailing
      split at h
      · cases h
      · rename_i behind first
        obtain ⟨same, loudly⟩ := takeInput_ok first
        rw [if_pos isTrailing, loudly]
        exact (ih h).after_same same
    · rename_i notTrailing
      rw [if_neg notTrailing]
      split at h
      · rename_i isEnd
        rw [if_pos isEnd]
        exact (ih h).after_same rfl
      · rename_i notEnd
        rw [if_neg notEnd]
        split at h
        · cases h
        · rename_i behind first
          rcases take_ok first with ⟨rfl, on⟩ | ⟨same, loudly⟩
          · rcases ih h with ⟨-, stays⟩ | ⟨same, -⟩
            · exact .inl ⟨List.mem_cons_self, stays⟩
            · exact .inl ⟨List.mem_cons_self, same.trans on⟩
          · rw [loudly]
            exact (ih h).after_same same

/-! ### No conversion is asked for by a failure -/

def StopsShort (result : Except Request State) : Prop :=
  ∀ request, result = .error request → ∀ options, request ≠ .convert options

theorem stopsShort_ok (state : State) : StopsShort (.ok state) := nofun

theorem stopsShort_fault (fault : UsageFault) : StopsShort (.error (.fault fault)) := by
  rintro request ⟨⟩ options same
  cases same

theorem StopsShort.andThen {result : Except Request State} {next : State → Except Request State} :
    StopsShort result → (∀ state, StopsShort (next state)) →
      StopsShort (match result with
        | .error request => .error request
        | .ok state => next state) := by
  intro h k
  cases result with
  | error request => exact h
  | ok state => exact k state

theorem stopsShort_settle (state : State) : StopsShort state.settle := by
  unfold settle
  split
  · exact stopsShort_ok _
  · exact stopsShort_ok _
  · exact stopsShort_fault _
  · split
    · exact stopsShort_fault _
    · exact stopsShort_ok _

theorem stopsShort_takeFlag (state : State) (flag : Argument) :
    StopsShort (state.takeFlag flag) := by
  unfold takeFlag
  refine (stopsShort_settle state).andThen fun settled => ?_
  split
  · rintro request ⟨⟩ options same
    cases same
  · rintro request ⟨⟩ options same
    cases same
  · split
    · exact stopsShort_fault _
    · exact stopsShort_ok _

theorem stopsShort_takeInput (state : State) (value : String) :
    StopsShort (state.takeInput value) := by
  unfold takeInput
  split
  · exact stopsShort_fault _
  · exact (stopsShort_settle state).andThen fun settled => stopsShort_ok _

theorem stopsShort_takeLong (state : State) (name : String) (value : Option String) :
    StopsShort (state.takeLong name value) := by
  unfold takeLong
  split
  · exact stopsShort_fault _
  · refine (stopsShort_settle state).andThen fun settled => ?_
    dsimp only
    split
    · exact stopsShort_settle _
    · exact stopsShort_ok _
  · split
    · exact stopsShort_fault _
    · exact stopsShort_takeFlag state _

theorem stopsShort_takeShort (state : State) (letters : List Char) :
    StopsShort (state.takeShort letters) := by
  induction letters generalizing state with
  | nil => exact stopsShort_ok _
  | cons letter rest ih =>
    unfold takeShort
    split
    · exact stopsShort_fault _
    · exact (stopsShort_takeFlag state _).andThen ih

theorem stopsShort_take (state : State) (argument : String) :
    StopsShort (state.take argument) := by
  unfold take
  split
  · exact stopsShort_takeLong state _ _
  · exact stopsShort_takeShort state _
  · split
    · exact stopsShort_ok _
    · exact stopsShort_takeInput state argument

theorem stopsShort_takeAll (state : State) (trailing : Bool) (arguments : List String) :
    StopsShort (state.takeAll trailing arguments) := by
  induction arguments generalizing state trailing with
  | nil => exact stopsShort_settle state
  | cons argument rest ih =>
    unfold takeAll
    split
    · exact (stopsShort_takeInput state argument).andThen fun behind => ih behind true
    · split
      · exact ih state true
      · exact (stopsShort_take state argument).andThen fun behind => ih behind false

end State

/-- Arguments with the debug option in front of them ask for the same with debug output, unless
they name it already. -/
theorem asked_with_debug {arguments : List String} {options : Options}
    (asked : Request.ofArguments arguments = .convert options) :
    ("--debug" ∉ arguments → options.debug = false) ∧
      (options.debug = false → Request.ofArguments ("--debug" :: arguments) =
        .convert { options with debug := true }) := by
  unfold Request.ofArguments at asked
  split at asked
  · rename_i taken all
    obtain rfl : taken.options = options := Request.convert.inj asked
    have first : State.start.takeAll false ("--debug" :: arguments) =
        State.start.loud.takeAll false arguments := rfl
    rcases State.takeAll_ok all with ⟨mem, on⟩ | ⟨same, loudly⟩
    · refine ⟨fun absent => absurd mem absent, fun off => ?_⟩
      rw [off] at on
      cases on
    · refine ⟨fun _ => same, fun _ => ?_⟩
      unfold Request.ofArguments
      rw [first, loudly]
      rfl
  · rename_i request failed
    exact absurd asked (State.stopsShort_takeAll _ _ _ request failed options)

end CommandLine

end DiveTable
