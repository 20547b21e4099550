import StyleFlip.Command.Run

/-!
# What a run of the command does to the files

The command can stop at many points: its arguments, the configuration file, the input, the output.
Wherever it stops, the files are as they were. If it gets to the end, one file has changed, the one
that the output names, and that one holds the transformed input (`run_all_or_nothing`). The output
may be the input or the configuration file; both have been read by then.

A run is made of steps over a file system. On a tree of files, a step has a result and leaves files
behind (`Yields`).
-/

namespace StyleFlip

theorem bind_eq_ok_iff {ε α β : Type} {x : Except ε α} {f : α → Except ε β} {b : β} :
    x >>= f = .ok b ↔ ∃ a, x = .ok a ∧ f a = .ok b := by
  cases x with
  | error e => simp [bind, Except.bind]
  | ok a => simp [bind, Except.bind]

/-! ### One file is written -/

namespace Files

theorem lookup_filter_ne {entries : List (Location × Node)} {location other : Location}
    (h : other ≠ location) :
    (entries.filter (·.1 != location)).lookup other = entries.lookup other := by
  induction entries with
  | nil => rfl
  | cons entry entries ih =>
      obtain ⟨key, node⟩ := entry
      by_cases hkey : key = location
      · have hother : (other == key) = false := by simpa [hkey] using h
        simp [hkey, List.lookup_cons, ih, hkey ▸ hother]
      · simp [hkey, List.lookup_cons, ih]

theorem get?_set_of_ne (files : Files) {location other : Location} (node : Node)
    (h : other ≠ location) : (files.set location node).get? other = files.get? other := by
  have hother : (other == location) = false := by simpa using h
  simp [get?, set, List.lookup_cons, hother, lookup_filter_ne h]

theorem get?_set_self {files : Files} {location : Location} (node : Node)
    (h : files.get? location ≠ some .directory) :
    (files.set location node).get? location = some node := by
  have hplace : ¬ (location = [] ∨ location = workingDirectory) := by
    intro hroot
    exact h (if_pos hroot)
  rw [get?, if_neg hplace]
  simp [set]

/-- A text that is written to the path goes to the location. -/
structure Takes (files : Files) (path : Text) (location : Location) : Prop where
  located : ∃ parent, files.parentOf path = .ok parent ∧ locate parent path = .ok location
  notSlash : namesDirectory path = false
  notDirectory : files.get? location ≠ some .directory

/-- The files with a text written to a location. -/
def written (files : Files) (location : Location) (text : Text) : Files :=
  match files.get? location with
  | some .sink => files
  | _ => files.set location (.file (.text text))

theorem Takes.writeText_eq {files : Files} {path : Text} {location : Location}
    (h : files.Takes path location) (text : Text) :
    files.writeText path text = .ok (files.written location text) := by
  obtain ⟨⟨parent, hparent, hlocation⟩, hslash, hdirectory⟩ := h
  simp only [writeText, hparent, hslash, hlocation, bind, Except.bind, written,
    Bool.false_eq_true, if_false]
  cases hnode : files.get? location with
  | none => rfl
  | some node =>
      cases node with
      | directory => exact absurd hnode hdirectory
      | file content => rfl
      | sink => rfl

theorem exists_takes_of_writeText {files after : Files} {path text : Text}
    (h : files.writeText path text = .ok after) : ∃ location, files.Takes path location := by
  obtain ⟨parent, hparent, h⟩ := bind_eq_ok_iff.mp h
  by_cases hslash : namesDirectory path = true
  · simp [hslash, bind, Except.bind] at h
  rw [if_neg hslash] at h
  obtain ⟨-, -, h⟩ := bind_eq_ok_iff.mp h
  obtain ⟨location, hlocation, h⟩ := bind_eq_ok_iff.mp h
  refine ⟨location, ⟨parent, hparent, hlocation⟩, by simpa using hslash, ?_⟩
  intro hdirectory
  simp [hdirectory] at h

theorem get?_written_of_ne (files : Files) {location other : Location} (text : Text)
    (h : other ≠ location) : (files.written location text).get? other = files.get? other := by
  unfold written
  split
  · rfl
  · exact get?_set_of_ne files _ h

theorem written_of_sink {files : Files} {location : Location}
    (h : files.get? location = some .sink) (text : Text) : files.written location text = files := by
  simp [written, h]

theorem written_of_ne_sink {files : Files} {location : Location}
    (h : files.get? location ≠ some .sink) (text : Text) :
    files.written location text = files.set location (.file (.text text)) := by
  unfold written
  split
  · contradiction
  · rfl

/-! ### What was written can be read -/

theorem directoryAt_eq_ok_iff {files : Files} {here there : Location} :
    files.directoryAt here = .ok there ↔ files.get? here = some .directory ∧ here = there := by
  unfold directoryAt
  cases files.get? here with
  | none => simp
  | some node => cases node <;> simp

/-- No directory on the way to a path is lost when a file is set. -/
theorem foldlM_directoryAt_set {files : Files} {location : Location} (node : Node)
    (hlocation : files.get? location ≠ some .directory) {names : List Text} {here there : Location}
    (h : names.foldlM (fun here name => do files.directoryAt (← step here name)) here =
      .ok there) :
    names.foldlM (fun here name => do (files.set location node).directoryAt (← step here name))
      here = .ok there := by
  induction names generalizing here with
  | nil => exact h
  | cons name names ih =>
      rw [List.foldlM_cons] at h ⊢
      obtain ⟨next, hnext, hrest⟩ := bind_eq_ok_iff.mp h
      obtain ⟨stepped, hstep, hdirectory⟩ := bind_eq_ok_iff.mp hnext
      obtain ⟨hget, rfl⟩ := directoryAt_eq_ok_iff.mp hdirectory
      have hne : stepped ≠ location := by
        rintro rfl
        exact hlocation hget
      have hkept : (files.set location node).directoryAt stepped = .ok stepped := by
        rw [directoryAt_eq_ok_iff, get?_set_of_ne files node hne]
        exact ⟨hget, rfl⟩
      refine bind_eq_ok_iff.mpr ⟨stepped, ?_, ih hrest⟩
      exact bind_eq_ok_iff.mpr ⟨stepped, hstep, hkept⟩

theorem parentOf_set {files : Files} {location parent : Location} {path : Text} (node : Node)
    (hlocation : files.get? location ≠ some .directory) (h : files.parentOf path = .ok parent) :
    (files.set location node).parentOf path = .ok parent := by
  unfold parentOf at h ⊢
  split
  · rw [if_pos ‹_›] at h
    contradiction
  rw [if_neg ‹_›] at h
  split
  · rw [if_pos ‹_›] at h
    contradiction
  rw [if_neg ‹_›] at h
  exact foldlM_directoryAt_set node hlocation h

theorem Takes.readText_set {files : Files} {path : Text} {location : Location}
    (h : files.Takes path location) (text : Text) :
    (files.set location (.file (.text text))).readText path = .ok text := by
  obtain ⟨⟨parent, hparent, hlocation⟩, hslash, hdirectory⟩ := h
  have hafter := parentOf_set (.file (.text text)) hdirectory hparent
  simp only [readText, hafter, hlocation, bind, Except.bind, get?_set_self _ hdirectory, hslash,
    Bool.false_eq_true, if_false]

end Files

/-! ### Steps on a tree of files -/

/-- On these files the step has this result and leaves those files. -/
def Yields {ε α : Type} (files : Files) (step : ExceptT ε (StateM Files) α)
    (result : Except ε α) (after : Files) : Prop :=
  step.run.run files = (result, after)

namespace Yields

variable {ε ε' α β : Type} {files after : Files} {x : ExceptT ε (StateM Files) α}
  {f : α → ExceptT ε (StateM Files) β}

theorem bind_ok {a : α} {between : Files} {result : Except ε β}
    (h : Yields files x (.ok a) between) (hf : Yields between (f a) result after) :
    Yields files (x >>= f) result after := by
  rw [Yields] at h
  rw [Yields, ExceptT.run_bind, StateT.run_bind, h]
  exact hf

theorem bind_error {e : ε} (h : Yields files x (.error e) after) :
    Yields files (x >>= f) (.error e) after := by
  rw [Yields] at h
  rw [Yields, ExceptT.run_bind, StateT.run_bind, h]
  rfl

theorem adapt {result : Except ε α} (h : Yields files x result after) (g : ε → ε') :
    Yields files (x.adapt g) (result.mapError g) after := by
  rw [Yields] at h
  have hadapt : (x.adapt g).run = Except.mapError g <$> x.run := rfl
  rw [Yields, hadapt, StateT.run_map, h]
  rfl

/-- Steps that leave the files as they are, one after the other, are steps without effects. -/
theorem bind_of_reads {y : ExceptT ε Id α} {g : α → ExceptT ε Id β}
    (h : Yields files x y.run files) (hf : ∀ a, Yields files (f a) (g a).run files) :
    Yields files (x >>= f) (y >>= g).run files := by
  cases hy : y with
  | error e => exact bind_error (hy ▸ h)
  | ok a => exact bind_ok (hy ▸ h) (hf a)

end Yields

namespace Files

variable {files after : Files} {path text : Text}

theorem readText_yields (files : Files) (path : Text) :
    Yields files (system.readText path) (files.readText path) files := rfl

theorem run_writeText (files : Files) (path text : Text) :
    (system.writeText path text).run.run files =
      match files.writeText path text with
      | .ok after => (.ok (), after)
      | .error error => (.error error, files) := rfl

theorem writeText_yields_of_ok (h : files.writeText path text = .ok after) :
    Yields files (system.writeText path text) (.ok ()) after := by
  rw [Yields, run_writeText, h]

theorem writeText_yields_of_error {error : FileError}
    (h : files.writeText path text = .error error) :
    Yields files (system.writeText path text) (.error error) files := by
  rw [Yields, run_writeText, h]

end Files

/-! ### The request -/

theorem Config.load_yields (files : Files) (path : Text) :
    Yields files (Config.load Files.system.readText path)
      (Config.load (m := Id) files.readText path).run files := by
  refine .bind_of_reads (.adapt (files.readText_yields path) _) fun text => ?_
  cases (Config.parse text).mapError (Failure.invalidConfig path) <;> rfl

/-- The configuration file is read, and nothing is written on the way to the request. -/
theorem Arguments.makeRequest_yields (files : Files) (a : Arguments) :
    Yields files (a.makeRequest Files.system.readText) (a.request files.readText) files := by
  unfold Arguments.request Arguments.makeRequest
  by_cases hmany : maxSwitches < a.switches.length
  · rw [if_pos hmany, if_pos hmany]
    rfl
  · rw [if_neg hmany, if_neg hmany]
    dsimp only
    cases a.config with
    | none =>
        refine .bind_of_reads rfl fun loaded => ?_
        split <;> rfl
    | some path =>
        refine .bind_of_reads (Config.load_yields files path) fun loaded => ?_
        split <;> rfl

/-- The arguments, with the configuration file that they name, make this request. -/
def Accepts (arguments : List Text) (files : Files) (request : Request) : Prop :=
  ∃ a, Arguments.read arguments = .ok a ∧ a.request files.readText = .ok request

/-- The request can be carried out: the input is a text, and the output can be written. -/
structure Request.Ready (request : Request) (files : Files) (css : Text) (location : Location) :
    Prop where
  input : files.readText request.input = .ok css
  output : files.Takes request.output location

theorem Request.Ready.perform_yields {request : Request} {files : Files} {css : Text}
    {location : Location} (h : request.Ready files css location) :
    Yields files (request.perform Files.system)
      (.ok (request.report (transform css request.config)))
      (files.written location (transform css request.config).css) := by
  have hread : Yields files (Files.system.readText request.input) (.ok css) files :=
    h.input ▸ files.readText_yields request.input
  have hwrite := Files.writeText_yields_of_ok
    (h.output.writeText_eq (transform css request.config).css)
  exact .bind_ok (hread.adapt _) (.bind_ok (hwrite.adapt _) rfl)

/-- A request that cannot be carried out changes nothing. -/
theorem Request.ready_or_perform_yields (request : Request) (files : Files) :
    (∃ css location, request.Ready files css location) ∨
      ∃ failure, Yields files (request.perform Files.system) (.error failure) files := by
  have hread := files.readText_yields request.input
  cases hinput : files.readText request.input with
  | error error =>
      rw [hinput] at hread
      exact .inr ⟨.unreadable request.input error, .bind_error (hread.adapt _)⟩
  | ok css =>
      rw [hinput] at hread
      cases houtput : files.writeText request.output (transform css request.config).css with
      | error error =>
          have hwrite := Files.writeText_yields_of_error houtput
          exact .inr ⟨.unwritable request.output error,
            .bind_ok (hread.adapt _) (.bind_error (hwrite.adapt _))⟩
      | ok after =>
          obtain ⟨location, htakes⟩ := Files.exists_takes_of_writeText houtput
          exact .inl ⟨css, location, hinput, htakes⟩

/-! ### The command -/

theorem run_of_stop {arguments : List Text} {stop : Stop}
    (hread : Arguments.read arguments = .error stop) (files : Files) :
    run arguments files = (.stopped stop, files) := by
  rw [run, runOn, hread]
  rfl

theorem run_of_yields {arguments : List Text} {a : Arguments} {files after : Files}
    {result : Except Failure Text} (hread : Arguments.read arguments = .ok a)
    (h : Yields files (a.carryOut Files.system) result after) :
    run arguments files = (.ofResult result, after) := by
  rw [Yields] at h
  rw [run, runOn, hread]
  dsimp only
  rw [StateT.run_map, h]
  rfl

theorem run_of_ready {arguments : List Text} {files : Files} {request : Request} {css : Text}
    {location : Location} (haccepts : Accepts arguments files request)
    (hready : request.Ready files css location) :
    run arguments files =
      (.done (request.report (transform css request.config)),
        files.written location (transform css request.config).css) := by
  obtain ⟨a, hread, hrequest⟩ := haccepts
  have hmade := a.makeRequest_yields files
  rw [hrequest] at hmade
  exact run_of_yields hread (.bind_ok hmade hready.perform_yields)

/-- How a run can end. -/
theorem run_cases (arguments : List Text) (files : Files) :
    (∃ stop, run arguments files = (.stopped stop, files)) ∨
      (∃ failure, run arguments files = (.failed failure, files)) ∨
      ∃ request css location, Accepts arguments files request ∧
        request.Ready files css location := by
  cases hread : Arguments.read arguments with
  | error stop => exact .inl ⟨stop, run_of_stop hread files⟩
  | ok a =>
      have hmade := a.makeRequest_yields files
      cases hrequest : a.request files.readText with
      | error failure =>
          rw [hrequest] at hmade
          exact .inr (.inl ⟨failure, run_of_yields hread (.bind_error hmade)⟩)
      | ok request =>
          rw [hrequest] at hmade
          rcases request.ready_or_perform_yields files with
            ⟨css, location, hready⟩ | ⟨failure, hperform⟩
          · exact .inr (.inr ⟨request, css, location, ⟨a, hread, hrequest⟩, hready⟩)
          · exact .inr (.inl ⟨failure, run_of_yields hread (.bind_ok hmade hperform)⟩)

theorem Failure.exitCode_ne_zero (failure : Failure) : failure.exitCode ≠ 0 := by
  unfold exitCode
  split <;> decide

/-- A run that fails or shows help leaves the files as they were. A run that succeeds does what the
arguments request: only the place that the output names has changed, it holds the transformed input,
and the advice is printed line by line if warnings are on. A run succeeds whenever the arguments are
accepted, the input can be read and the output can be written.

Every file here is a text, other bytes or the sink. An output that is another device, such as
`/dev/stdout`, and a standard output that fails are outside the model. -/
theorem run_all_or_nothing (arguments : List Text) (files : Files) :
    ∃ outcome after, run arguments files = (outcome, after) ∧
      (outcome.exitCode ≠ 0 ∨ outcome = .stopped .help → after = files) ∧
      (outcome.exitCode = 0 ∧ outcome ≠ .stopped .help →
        ∃ request css location,
          Accepts arguments files request ∧ request.Ready files css location ∧
          (∀ other, other ≠ location → after.get? other = files.get? other) ∧
          (files.get? location ≠ some .sink →
            after.get? location = some (.file (.text (transform css request.config).css)) ∧
              after.readText request.output = .ok (transform css request.config).css) ∧
          (files.get? location = some .sink → after = files) ∧
          outcome.stdout =
            if request.config.flip.warnings then
              (transform css request.config).diagnostics.flatMap (·.display ++ ['\n'])
            else []) ∧
      ((∃ request css location,
          Accepts arguments files request ∧ request.Ready files css location) →
        outcome.exitCode = 0 ∧ outcome ≠ .stopped .help) := by
  refine ⟨(run arguments files).1, (run arguments files).2, rfl, ?_, ?_, ?_⟩
  · intro hfails
    rcases run_cases arguments files with
      ⟨stop, hrun⟩ | ⟨failure, hrun⟩ | ⟨request, css, location, haccepts, hready⟩
    · rw [hrun]
    · rw [hrun]
    · rw [run_of_ready haccepts hready] at hfails
      simp [Outcome.exitCode] at hfails
  · rintro ⟨hzero, hhelp⟩
    rcases run_cases arguments files with
      ⟨stop, hrun⟩ | ⟨failure, hrun⟩ | ⟨request, css, location, haccepts, hready⟩
    · rw [hrun] at hzero hhelp
      cases stop with
      | help => exact absurd rfl hhelp
      | usage error => contradiction
    · rw [hrun] at hzero
      exact absurd hzero failure.exitCode_ne_zero
    · have hdirectory := hready.output.notDirectory
      rw [run_of_ready haccepts hready]
      refine ⟨request, css, location, haccepts, hready, ?_, ?_, ?_, rfl⟩
      · intro other hother
        exact Files.get?_written_of_ne files _ hother
      · intro hsink
        rw [Files.written_of_ne_sink hsink]
        exact ⟨Files.get?_set_self _ hdirectory, hready.output.readText_set _⟩
      · intro hsink
        exact Files.written_of_sink hsink _
  · rintro ⟨request, css, location, haccepts, hready⟩
    rw [run_of_ready haccepts hready]
    exact ⟨rfl, by simp⟩

/-- The output may be the input, by another path. -/
example :
    let files := Files.place ⟨[]⟩ "a.css".toList (.file (.text "a\x7bleft:0\x7d".toList))
    ((run ["a.css".toList, "./a.css".toList] files).2.readText "a.css".toList).toOption =
      some "a\x7bright:0\x7d".toList := by
  decide +kernel

end StyleFlip
