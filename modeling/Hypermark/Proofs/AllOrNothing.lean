import Hypermark.Command.Run
import Hypermark.Proofs.ConversionFaults
import Hypermark.Proofs.StoredFiles

/-!
# A run is all or nothing

A run has five stages that can fail.  Only the last one puts anything out, so a run that fails at
any of the others leaves standard output empty and all files but the log file as they were, and a
run that succeeds has put the output into one place.  The last stage itself fails halfway in two
ways only: standard output breaks down, or the output has no bytes when its file is open already.

* `Logs`: what logging does to a session, and all that the stages before the last one do.
* `logs_log`, `logs_logAll`, `logs_openLog`: a record, many records, the opening of the log file.
* `ending_conclude`: the last stage, from any session, in four endings.
* `exists_conclude`: once the input is read, the run goes on to its end with what the conversion
  gave.
* `run_cases`, `ending_run`: a run fails with nothing but logging done, or comes to an ending.
* `performWith_allOrNothing`: the whole run.

The log file is opened before the input is read, so where both are one file the input is the log as
it is then: `Settings.reads`.
-/

namespace Hypermark.Command

open FileStore (OnlyWrites)

namespace Session

/-! ## Logging -/

/-- The places that records go to. -/
def logPlaces (s : Session) : List (List Text) :=
  (s.logFile.map (FileStore.resolveParts [])).toList

/-- The second session is the first one after records went to the error output and to files at the
places. -/
structure Logs (places : List (List Text)) (a b : Session) : Prop where
  around : b.around = a.around
  stdout : b.stdout = a.stdout
  store : OnlyWrites places a.store b.store
  logPlaces : b.logPlaces ⊆ places

variable {places : List (List Text)} {a b c s : Session}

theorem Logs.refl (h : s.logPlaces ⊆ places) : Logs places s s :=
  ⟨rfl, rfl, .refl places s.store, h⟩

theorem Logs.trans (hab : Logs places a b) (hbc : Logs places b c) : Logs places a c :=
  ⟨hbc.around.trans hab.around, hbc.stdout.trans hab.stdout, hab.store.trans hbc.store,
    hbc.logPlaces⟩

theorem logs_logToFile (h : s.logPlaces ⊆ places) (line : Text) :
    Logs places s (s.logToFile line) := by
  unfold logToFile
  split
  · exact .refl h
  · rename_i parts hfile
    split
    · split
      · rename_i store happend
        have hplace : s.logPlaces = [FileStore.resolveParts [] parts] := by simp [logPlaces, hfile]
        rw [hplace] at h
        refine ⟨rfl, rfl, (FileStore.append_onlyWrites happend).mono h, ?_⟩
        simpa [logPlaces, hfile] using h
      · exact .refl h
    · exact .refl h

theorem logs_log (h : s.logPlaces ⊆ places) (r : Log.Record) : Logs places s (s.log r) := by
  unfold log
  split
  · have hline := logs_logToFile
      (s := { s with stderr := s.stderr ++ s.logging.format.line s.time r })
      h (s.logging.format.line s.time r)
    exact ⟨hline.around, hline.stdout, hline.store, hline.logPlaces⟩
  · exact .refl h

theorem logs_logAll (h : s.logPlaces ⊆ places) (rs : List Log.Record) :
    Logs places s (s.logAll rs) := by
  induction rs generalizing s with
  | nil => exact .refl h
  | cons r rs ih => exact (logs_log h r).trans (ih (logs_log h r).logPlaces)

theorem logs_openLog (h : s.logFile = none) (path : Text) :
    Logs [s.store.fullParts path] s (s.openLog path) := by
  unfold openLog
  dsimp only
  split
  · rename_i store happend
    have hwrites := FileStore.append_onlyWrites happend
    rw [FileStore.resolveParts_fullParts] at hwrites
    have hopened : Logs [s.store.fullParts path] s
        { s with store := store, logFile := some (s.store.fullParts path) } :=
      ⟨rfl, rfl, hwrites, by simp [logPlaces, FileStore.resolveParts_fullParts]⟩
    exact hopened.trans (logs_log hopened.logPlaces _)
  · exact logs_log (by simp [logPlaces, h]) _

end Session

/-- The places that the log of a run goes to: that of its log file, if it has one. -/
def Settings.logPlaces (settings : Settings) (store : FileStore) : List (List Text) :=
  match settings.logFile with
  | some path => if path.isEmpty then [] else [store.fullParts path]
  | none => []

namespace Session

variable {places : List (List Text)} {s : Session}

/-- Setting up logging does nothing but log. -/
theorem logs_start (settings : Settings) (store : FileStore) (around : Surroundings)
    (time : Text) : Logs (settings.logPlaces store) (fresh settings store around time)
      (start settings store around time) := by
  have hnone : (fresh settings store around time).logFile = none := rfl
  have hempty : (fresh settings store around time).logPlaces ⊆ [] := by simp [logPlaces, hnone]
  unfold start Settings.logPlaces
  cases settings.logFile with
  | none => exact .refl hempty
  | some path =>
    dsimp only
    split
    · exact .refl hempty
    · exact logs_openLog hnone path

/-! ## The end of a run -/

/-- The run from the end of the conversion on. -/
def conclude (s : Session) (out : Option Text) (result : Except Fault Text) : Outcome :=
  match result with
  | .error fault => s.failWith fault
  | .ok document =>
    match s.writeOutput out (withLineBreak document) with
    | (s, some fault) => s.failWith fault
    | (s, none) => s.finish

end Session

/-- Standard output has this text, and nothing has changed outside the places. -/
def Printed (places : List (List Text)) (store : FileStore) (text : Text) (o : Outcome) : Prop :=
  o.stdout = text ∧ OnlyWrites places store o.store

/-- The file at the path holds these bytes, and but for this nothing has changed outside the
places. -/
def Stored (places : List (List Text)) (store : FileStore) (path : Text) (bytes : List UInt8)
    (o : Outcome) : Prop :=
  o.stdout = [] ∧ ∃ parts, store.locate path = .ok parts ∧ o.store.at? parts = some (.file bytes) ∧
    OnlyWrites (parts :: places) store o.store

section

variable (around : Surroundings) (places : List (List Text)) (store : FileStore)
  (out : Option Text) (output : Text)

/-- Where the output goes, all of it can go: standard output takes it, or the file can be written and
the output has bytes. -/
def Takes : Prop :=
  match out with
  | none => around.stdoutFault output = none
  | some path => around.pathFault (FileStore.tidy path) = none ∧ store.Writable path ∧
      around.encodeFault output = none

/-- The output has gone to one place, of standard output and the file asked for. -/
def Delivered (o : Outcome) : Prop :=
  match out with
  | none => Printed places store output o
  | some path => Stored places store path (Text.encodeUtf8 output) o

/-- The output has got lost on its way: standard output failed and keeps what it took before, or the
text has no bytes and leaves the file empty. -/
def CutOff (o : Outcome) : Prop :=
  match out with
  | none => ∃ taken message, around.stdoutFault output = some (taken, message) ∧
      Printed places store (output.take taken) o
  | some path => around.encodeFault output ≠ none ∧ Stored places store path [] o

/-- How a run ends that has an output. -/
inductive Ending (o : Outcome) : Prop
  | delivered (hexit : o.exit = 0) (htakes : Takes around store out output)
      (h : Delivered places store out output o)
  | cutOff (hexit : o.exit = 1)
      (hwritable : ∀ path ∈ out, around.pathFault (FileStore.tidy path) = none ∧ store.Writable path)
      (h : CutOff around places store out output o)
  | noPath {path : Text} (hexit : o.exit = 1) (hpath : path ∈ out)
      (hfault : around.pathFault (FileStore.tidy path) ≠ none) (h : Printed places store [] o)
  | unwritable {path : Text} (hexit : o.exit = 4) (hpath : path ∈ out)
      (hnone : around.pathFault (FileStore.tidy path) = none) (hnot : ¬ store.Writable path)
      (h : Printed places store [] o)

end

namespace Session

variable {places : List (List Text)} {s : Session} {out : Option Text} {output : Text}

/-- Failing does nothing but log. -/
theorem printed_failWith (h : s.logPlaces ⊆ places) (fault : Fault) :
    Printed places s.store s.stdout (s.failWith fault) := by
  unfold failWith
  dsimp only
  split
  · exact ⟨(logs_log h _).stdout, (logs_log h _).store⟩
  · exact ⟨rfl, .refl places s.store⟩

/-- What was stored stays as it is while records go elsewhere. -/
theorem stored_of_onlyWrites {store : FileStore} {path : Text} {bytes : List UInt8} {o : Outcome}
    (hwrite : s.store.write path bytes = .ok store) (hpath : s.store.Avoids path places)
    (hstdout : o.stdout = []) (ho : OnlyWrites places store o.store) :
    Stored places s.store path bytes o := by
  obtain ⟨parts, hlocate, hwrites, hat⟩ := FileStore.write_onlyWrites hwrite
  have hparts : parts ∉ places := fun hmem => hpath parts hmem hlocate
  exact ⟨hstdout, parts, hlocate, (ho.elsewhere parts hparts).trans hat,
    (hwrites.mono (by simp)).trans (ho.mono (List.subset_cons_self parts places))⟩

/-- A run that has a document ends in one of four ways. -/
theorem ending_conclude (h : s.logPlaces ⊆ places) (hstdout : s.stdout = [])
    (hout : ∀ path ∈ out, s.store.Avoids path places) (document : Text) :
    Ending s.around places s.store out (withLineBreak document)
      (s.conclude out (.ok document)) := by
  unfold conclude writeOutput
  dsimp only
  cases out with
  | none =>
    cases htaken : s.around.stdoutFault (withLineBreak document) with
    | none =>
      refine .delivered (exit_finish _) htaken ⟨?_, .refl places s.store⟩
      simp [finish, hstdout]
    | some fault =>
      obtain ⟨taken, message⟩ := fault
      let s' : Session := { s with stdout := s.stdout ++ (withLineBreak document).take taken }
      have hprinted := printed_failWith (s := s') h (.system message)
      refine .cutOff rfl nofun ⟨taken, message, htaken, ?_⟩
      simpa [s', hstdout] using hprinted
  | some path =>
    have hnothing : ∀ fault, Printed places s.store [] (s.failWith fault) := fun fault =>
      hstdout ▸ printed_failWith h fault
    have hwritable : (∃ store, s.store.write path (s.around.written (withLineBreak document)) =
        .ok store) ↔ s.store.Writable path := FileStore.exists_write_iff
    simp only [FileStore.write_tidy]
    cases hfault : s.around.pathFault (FileStore.tidy path) with
    | some message => exact .noPath rfl rfl (by simp [hfault]) (hnothing _)
    | none =>
      cases hwrite : s.store.write path (s.around.written (withLineBreak document)) with
      | error problem =>
        refine .unwritable rfl rfl hfault (fun hable => ?_) (hnothing _)
        obtain ⟨store, hok⟩ := hwritable.mpr hable
        cases hwrite.symm.trans hok
      | ok store =>
        have hable : s.store.Writable path := hwritable.mp ⟨store, hwrite⟩
        cases hencode : s.around.encodeFault (withLineBreak document) with
        | some message =>
          have hempty : s.around.written (withLineBreak document) = [] := by
            rw [Surroundings.written, hencode]
          have hleaves := printed_failWith (s := { s with store := store }) h (.system message)
          rw [hempty] at hwrite
          have hstored := stored_of_onlyWrites hwrite (hout path rfl)
            (hleaves.1.trans hstdout) hleaves.2
          refine .cutOff rfl (fun p hp => ?_) ⟨by simp [hencode], hstored⟩
          obtain rfl := Option.some.inj hp
          exact ⟨hfault, hable⟩
        | none =>
          have hbytes : s.around.written (withLineBreak document) =
              Text.encodeUtf8 (withLineBreak document) := by
            rw [Surroundings.written, hencode]
          have hlog := logs_log (s := { s with store := store }) h
            ⟨.info, topic, "Wrote ".toList ++ Text.ofNat (withLineBreak document).length ++
              " characters to ".toList ++ FileStore.tidy path⟩
          rw [hbytes] at hwrite
          exact .delivered (exit_finish _) ⟨hfault, hable, hencode⟩
            (stored_of_onlyWrites hwrite (hout path rfl) (hlog.stdout.trans hstdout) hlog.store)

/-! ## The stages before -/

variable {plugins : Plugins} {settings : Settings} {opts : Options} {fault : Fault} {text : Text}

theorem process_of_invalid (ho : options settings = .error fault) :
    s.process plugins settings = s.failWith fault := by
  rw [process, ho]

theorem process_of_unreadable (ho : options settings = .ok opts)
    (hi : inputText s.store s.around settings.input = .error fault) :
    s.process plugins settings = s.failWith fault := by
  rw [process, ho]
  simp only [hi]

/-- Once the input is read, the run goes on to its end with what the conversion gives, and but for
the log nothing happens in between. -/
theorem exists_conclude (plugins : Plugins) (h : s.logPlaces ⊆ places)
    (ho : options settings = .ok opts)
    (hi : inputText s.store s.around settings.input = .ok text) :
    ∃ s', Logs places s s' ∧ s.process plugins settings =
      s'.conclude settings.out (plugins.convert opts text).outcome := by
  rw [process, ho]
  simp only [hi]
  have hread := logs_log h ⟨.debug, topic,
    "Read ".toList ++ Text.ofNat text.length ++ " characters from ".toList ++ settings.input⟩
  exact ⟨_, hread.trans (logs_logAll hread.logPlaces _), rfl⟩

/-! ## The input -/

variable {store : FileStore} {around : Surroundings} {input : Text}

theorem inputText_eq_ok_iff :
    inputText store around input = .ok text ↔ (input = standardInput ∧ around.stdin = .ok text) ∨
      (input ≠ standardInput ∧ around.pathFault (FileStore.tidy input) = none ∧
        ∃ content, store.read input = .ok content ∧
          Text.unifyBreaks (Text.decodeUtf8 content) = text) := by
  unfold inputText
  simp only [FileStore.read_tidy]
  by_cases hinput : input = standardInput
  · cases around.stdin <;> simp [hinput, Except.mapError]
  · cases around.pathFault (FileStore.tidy input) <;> cases store.read input <;> simp [hinput]

theorem exitCode_of_unreadable (h : inputText store around input = .error fault)
    (hinput : input ≠ standardInput) (hnone : around.pathFault (FileStore.tidy input) = none) :
    fault.failure.exitCode = 4 := by
  simp only [inputText, hinput, if_false, hnone] at h
  split at h
  · cases h
  · cases h
    rfl

theorem exitCode_of_unread (h : inputText store around input = .error fault)
    (hinput : input = standardInput ∨ around.pathFault (FileStore.tidy input) ≠ none) :
    fault.failure.exitCode = 1 := by
  by_cases hstdin : input = standardInput
  · cases htext : around.stdin with
    | error message =>
      simp only [inputText, hstdin, if_true, htext, Except.mapError] at h
      cases h
      rfl
    | ok text => simp [inputText, hstdin, htext, Except.mapError] at h
  · obtain ⟨message, hsome⟩ := Option.ne_none_iff_exists'.mp (hinput.resolve_left hstdin)
    simp only [inputText, hstdin, if_false, hsome] at h
    cases h
    rfl

/-! ## Standard input -/

/-- The session with this on standard input. -/
def withStdin (s : Session) (stdin : Except Text Text) : Session :=
  { s with around := { s.around with stdin := stdin } }

theorem log_withStdin (s : Session) (stdin : Except Text Text) (r : Log.Record) :
    (s.withStdin stdin).log r = (s.log r).withStdin stdin := by
  unfold log logToFile withStdin
  dsimp only
  split
  · split
    · rfl
    · split
      · split <;> rfl
      · rfl
  · rfl

theorem openLog_withStdin (s : Session) (stdin : Except Text Text) (path : Text) :
    (s.withStdin stdin).openLog path = (s.openLog path).withStdin stdin := by
  show openLog { s with around := { s.around with stdin := stdin } } path = _
  unfold openLog
  dsimp only
  split
  · rename_i store _
    exact log_withStdin { s with store := store, logFile := some (s.store.fullParts path) } stdin _
  · exact log_withStdin s stdin _

theorem start_withStdin (settings : Settings) (store : FileStore) (around : Surroundings)
    (stdin : Except Text Text) (time : Text) :
    start settings store { around with stdin := stdin } time =
      (start settings store around time).withStdin stdin := by
  unfold start
  cases settings.logFile with
  | none => rfl
  | some path =>
    dsimp only
    split
    · rfl
    · exact openLog_withStdin (fresh settings store around time) stdin path

/-- Failing does not take standard input. -/
theorem failWith_withStdin (s : Session) (stdin : Except Text Text) (fault : Fault) :
    (s.withStdin stdin).failWith fault = s.failWith fault := by
  unfold failWith
  rw [log_withStdin]
  split <;> rfl

end Session

/-! ## Settings -/

/-- What a run reads: its input as it is once the log file is open. -/
def Settings.reads (settings : Settings) (store : FileStore) (around : Surroundings)
    (time : Text) : Except Fault Text :=
  inputText (Session.start settings store around time).store around settings.input

/-- The options that the settings stand for if they name this parser. -/
def Settings.optionsWith (settings : Settings) (parser : Parser) : Options :=
  { Options.standard with parser := parser, detectLanguage := settings.detectLanguage }

section

variable {settings : Settings} {parser : Parser}

theorem options_of_name (h : settings.parser = parser.name) :
    Session.options settings = .ok (settings.optionsWith parser) := by
  rw [Session.options, h]
  cases parser <;> rfl

theorem ofName?_eq_none {name : Text} (h : ∀ parser : Parser, name ≠ parser.name) :
    Parser.ofName? name = none := by
  rw [Parser.ofName?, List.find?_eq_none]
  intro parser _
  simpa using (h parser).symm

theorem options_of_unknown (h : ∀ parser : Parser, settings.parser ≠ parser.name) :
    Session.options settings = .error (.invalidParser (.text settings.parser)) := by
  refine OptionRecord.check_eq_error_of_invalidParser ?_
  show OptionRecord.checkParser (.text settings.parser) = _
  simp only [OptionRecord.checkParser, ofName?_eq_none h]

/-- The input of a run is what it was before, unless the log goes there. -/
theorem reads_eq_ok_iff {store : FileStore} {around : Surroundings} {time text : Text}
    (h : settings.input = standardInput ∨
      store.Avoids settings.input (settings.logPlaces store)) :
    settings.reads store around time = .ok text ↔
      inputText store around settings.input = .ok text := by
  have hwrites := (Session.logs_start settings store around time).store
  rw [Settings.reads, Session.inputText_eq_ok_iff, Session.inputText_eq_ok_iff]
  refine or_congr Iff.rfl (and_congr_right fun hinput => and_congr_right fun _ =>
    exists_congr fun content => ?_)
  rw [hwrites.read_eq_ok_iff (h.resolve_left hinput)]
  rfl

theorem withLineBreak_eq (document : Text) :
    Session.withLineBreak document = if document = [] then [] else document ++ ['\n'] := by
  cases document <;> rfl

end

/-! ## The store before the log -/

section

variable {places : List (List Text)} {a b : FileStore} {out : Option Text} {path output : Text}
  {bytes : List UInt8} {around : Surroundings} {o : Outcome}

theorem Printed.of_onlyWrites (hab : OnlyWrites places a b) (h : Printed places b output o) :
    Printed places a output o := ⟨h.1, hab.trans h.2⟩

theorem Stored.of_onlyWrites (hab : OnlyWrites places a b) (h : Stored places b path bytes o) :
    Stored places a path bytes o := by
  obtain ⟨hstdout, parts, hlocate, hat, hwrites⟩ := h
  exact ⟨hstdout, parts, hab.locate_eq_ok_iff.mp hlocate, hat,
    (hab.mono (List.subset_cons_self parts places)).trans hwrites⟩

/-- What logging did before the output does not bear on how the run ends. -/
theorem Ending.of_onlyWrites (hab : OnlyWrites places a b)
    (hout : ∀ path ∈ out, a.Avoids path places) (h : Ending around places b out output o) :
    Ending around places a out output o := by
  have hwritable : ∀ path ∈ out, (b.Writable path ↔ a.Writable path) :=
    fun path hpath => hab.writable_iff (hout path hpath)
  cases h with
  | delivered hexit htakes h =>
    cases out with
    | none => exact .delivered hexit htakes (h.of_onlyWrites hab)
    | some path =>
      obtain ⟨hnone, hable, hencode⟩ := htakes
      have hable' := (hwritable path rfl).mp hable
      exact .delivered hexit ⟨hnone, hable', hencode⟩ (Stored.of_onlyWrites hab h)
  | cutOff hexit hable h =>
    refine .cutOff hexit (fun path hpath => ?_) ?_
    · exact ⟨(hable path hpath).1, (hwritable path hpath).mp (hable path hpath).2⟩
    · cases out with
      | none =>
        obtain ⟨taken, message, hfault, hprinted⟩ := h
        exact ⟨taken, message, hfault, hprinted.of_onlyWrites hab⟩
      | some path => exact ⟨h.1, h.2.of_onlyWrites hab⟩
  | noPath hexit hpath hfault h => exact .noPath hexit hpath hfault (h.of_onlyWrites hab)
  | unwritable hexit hpath hnone hnot h =>
    exact .unwritable hexit hpath hnone (mt (hwritable _ hpath).mpr hnot) (h.of_onlyWrites hab)

end

/-! ## What the ending tells -/

namespace Ending

variable {around : Surroundings} {places : List (List Text)} {store : FileStore}
  {out : Option Text} {path output : Text} {o : Outcome}

theorem not_cutOff_of_takes (htakes : Takes around store out output) :
    ¬ CutOff around places store out output o := by
  intro h
  cases out with
  | none =>
    obtain ⟨taken, message, hfault, -⟩ := h
    cases hfault.symm.trans htakes
  | some path => exact h.1 htakes.2.2

theorem delivered_of_exit (h : Ending around places store out output o) (hexit : o.exit = 0) :
    Delivered places store out output o := by
  cases h with
  | delivered _ _ h => exact h
  | cutOff hone => cases hexit.symm.trans hone
  | noPath hone => cases hexit.symm.trans hone
  | unwritable hfour => cases hexit.symm.trans hfour

theorem printed_or_cutOff (h : Ending around places store out output o) (hexit : o.exit ≠ 0) :
    Printed places store [] o ∨ o.exit = 1 ∧ CutOff around places store out output o := by
  cases h with
  | delivered hzero => exact absurd hzero hexit
  | cutOff hone _ h => exact .inr ⟨hone, h⟩
  | noPath _ _ _ h => exact .inl h
  | unwritable _ _ _ _ h => exact .inl h

theorem exit_of_takes (h : Ending around places store out output o)
    (htakes : Takes around store out output) : o.exit = 0 := by
  cases h with
  | delivered hexit => exact hexit
  | cutOff _ _ h => exact absurd h (not_cutOff_of_takes htakes)
  | noPath _ hpath hfault =>
    obtain rfl := hpath
    exact absurd htakes.1 hfault
  | unwritable _ hpath _ hnot =>
    obtain rfl := hpath
    exact absurd htakes.2.1 hnot

theorem exit_of_not_writable (h : Ending around places store out output o) (hpath : path ∈ out)
    (hnone : around.pathFault (FileStore.tidy path) = none) (hnot : ¬ store.Writable path) :
    o.exit = 4 := by
  obtain rfl := hpath
  cases h with
  | delivered _ htakes => exact absurd htakes.2.1 hnot
  | cutOff _ hable => exact absurd (hable path rfl).2 hnot
  | noPath _ hpath hfault =>
    obtain rfl := Option.some.inj hpath
    exact absurd hnone hfault
  | unwritable hexit => exact hexit

theorem exit_of_not_takes (h : Ending around places store out output o)
    (hnot : ¬ Takes around store out output)
    (hable : ∀ path ∈ out, around.pathFault (FileStore.tidy path) = none → store.Writable path) :
    o.exit = 1 := by
  cases h with
  | delivered _ htakes => exact absurd htakes hnot
  | cutOff hexit => exact hexit
  | noPath hexit => exact hexit
  | unwritable _ hpath hnone hcannot => exact absurd (hable _ hpath hnone) hcannot

end Ending

/-! ## The whole run -/

/-- The run has this output: what its input is converted to, with a line break unless it is
empty. -/
def Yields (plugins : Plugins) (settings : Settings) (store : FileStore) (around : Surroundings)
    (time output : Text) : Prop :=
  ∃ parser text document, settings.parser = Parser.name parser ∧
    settings.reads store around time = .ok text ∧
    (plugins.convert (settings.optionsWith parser) text).outcome = .ok document ∧
    output = if document = [] then [] else document ++ ['\n']

/-- What a run leaves behind is all or nothing, and its exit code tells which stage failed. -/
structure AllOrNothing (plugins : Plugins) (settings : Settings) (store : FileStore)
    (around : Surroundings) (time : Text) (o : Outcome) : Prop where
  /-- Success: the output is in one place. -/
  all : o.exit = 0 → ∃ output, Yields plugins settings store around time output ∧
    Delivered (settings.logPlaces store) store settings.out output o
  /-- Failure: nothing is put out, and no file but that of the log is new or changed, unless there
  was an output and it has got lost on its way. -/
  nothing : o.exit ≠ 0 → Printed (settings.logPlaces store) store [] o ∨
    o.exit = 1 ∧ ∃ output, Yields plugins settings store around time output ∧
      CutOff around (settings.logPlaces store) store settings.out output o
  /-- An unknown parser is found before the input is looked at. -/
  invalidParser : (∀ parser : Parser, settings.parser ≠ parser.name) → o.exit = 3 ∧
    ∀ input stdin, performWith plugins (.run { settings with input := input }) store
      { around with stdin := stdin } time = o
  unreadable : ∀ {parser fault}, settings.parser = Parser.name parser →
    settings.reads store around time = .error fault → settings.input ≠ standardInput →
    around.pathFault (FileStore.tidy settings.input) = none → o.exit = 4
  /-- Standard input that cannot be read, or the path of an input that can name no file. -/
  unread : ∀ {parser fault}, settings.parser = Parser.name parser →
    settings.reads store around time = .error fault →
    settings.input = standardInput ∨
      around.pathFault (FileStore.tidy settings.input) ≠ none → o.exit = 1
  missingParser : ∀ {parser text}, settings.parser = Parser.name parser →
    settings.reads store around time = .ok text → ¬ plugins.Has parser →
    Text.allBlank text = false → o.exit = 2
  badDocument : ∀ {parser text fault}, settings.parser = Parser.name parser →
    settings.reads store around time = .ok text → plugins.Has parser →
    (plugins.convert (settings.optionsWith parser) text).outcome = .error fault → o.exit = 1
  unwritable : ∀ {output path}, Yields plugins settings store around time output →
    path ∈ settings.out → around.pathFault (FileStore.tidy path) = none →
    ¬ store.Writable path → o.exit = 4
  /-- Any other way in which an output is not taken. -/
  unwritten : ∀ {output}, Yields plugins settings store around time output →
    ¬ Takes around store settings.out output →
    (∀ path ∈ settings.out, around.pathFault (FileStore.tidy path) = none →
      store.Writable path) → o.exit = 1
  done : ∀ {output}, Yields plugins settings store around time output →
    Takes around store settings.out output → o.exit = 0
  /-- The input is what it was before the run, unless the log goes there first. -/
  given : settings.input = standardInput ∨
      store.Avoids settings.input (settings.logPlaces store) →
    ∀ text, settings.reads store around time = .ok text ↔
      inputText store around settings.input = .ok text

section

variable {plugins : Plugins} {settings : Settings} {store : FileStore} {around : Surroundings}
  {time : Text}

/-- A run with a parser that is known and an input that can be read goes on to its end, and nothing
but logging has been done by then. -/
theorem run_of_reads (plugins : Plugins) {parser : Parser} {text : Text}
    (hparser : settings.parser = parser.name)
    (htext : settings.reads store around time = .ok text) :
    ∃ s, Session.Logs (settings.logPlaces store) (Session.fresh settings store around time) s ∧
      run plugins settings store around time =
        s.conclude settings.out (plugins.convert (settings.optionsWith parser) text).outcome := by
  have hstart := Session.logs_start settings store around time
  have hinput : inputText (Session.start settings store around time).store
      (Session.start settings store around time).around settings.input = .ok text := by
    rw [hstart.around]
    exact htext
  obtain ⟨s, hlogs, hrun⟩ :=
    Session.exists_conclude plugins hstart.logPlaces (options_of_name hparser) hinput
  exact ⟨s, hstart.trans hlogs, hrun⟩

theorem run_of_unknown (h : ∀ parser : Parser, settings.parser ≠ parser.name) :
    run plugins settings store around time =
      (Session.start settings store around time).failWith
        (.invalidParser (.text settings.parser)) :=
  Session.process_of_invalid (options_of_unknown h)

theorem run_of_unreadable {parser : Parser} {fault : Fault}
    (hparser : settings.parser = parser.name)
    (hfault : settings.reads store around time = .error fault) :
    run plugins settings store around time =
      (Session.start settings store around time).failWith fault := by
  refine Session.process_of_unreadable (options_of_name hparser) ?_
  rw [(Session.logs_start settings store around time).around]
  exact hfault

/-- A run that has an output ends in one of four ways. -/
theorem ending_run {output : Text}
    (hplaces : ∀ path ∈ settings.out, store.Avoids path (settings.logPlaces store))
    (h : Yields plugins settings store around time output) :
    Ending around (settings.logPlaces store) store settings.out output
      (run plugins settings store around time) := by
  obtain ⟨parser, text, document, hparser, htext, hdocument, rfl⟩ := h
  obtain ⟨s, hlogs, hrun⟩ := run_of_reads plugins hparser htext
  have hout : ∀ path ∈ settings.out, s.store.Avoids path (settings.logPlaces store) :=
    fun path hpath => hlogs.store.avoids (hplaces path hpath)
  have hending := Session.ending_conclude hlogs.logPlaces hlogs.stdout hout document
  rw [hlogs.around, withLineBreak_eq] at hending
  rw [hrun, hdocument]
  exact hending.of_onlyWrites hlogs.store hplaces

/-- How a run goes: some fault ends it with nothing but logging done, or it has an output. -/
theorem run_cases (plugins : Plugins) (settings : Settings) (store : FileStore)
    (around : Surroundings) (time : Text) :
    ((run plugins settings store around time).exit ≠ 0 ∧
      Printed (settings.logPlaces store) store [] (run plugins settings store around time)) ∨
    ∃ output, Yields plugins settings store around time output := by
  -- A fault leaves what the session has, whose store differs from the first one by the log alone.
  have hfailed : ∀ s : Session, ∀ fault,
      Session.Logs (settings.logPlaces store) (Session.fresh settings store around time) s →
      run plugins settings store around time = s.failWith fault →
      (run plugins settings store around time).exit ≠ 0 ∧
        Printed (settings.logPlaces store) store [] (run plugins settings store around time) := by
    intro s fault hlogs hrun
    have hprinted := Session.printed_failWith hlogs.logPlaces fault
    rw [hlogs.stdout] at hprinted
    rw [hrun]
    exact ⟨Session.exit_failWith_ne_zero s fault, hprinted.of_onlyWrites hlogs.store⟩
  have hstart := Session.logs_start settings store around time
  by_cases hknown : ∃ parser : Parser, settings.parser = parser.name
  · obtain ⟨parser, hparser⟩ := hknown
    cases hreads : settings.reads store around time with
    | error fault => exact .inl (hfailed _ _ hstart (run_of_unreadable hparser hreads))
    | ok text =>
      obtain ⟨s, hlogs, hrun⟩ := run_of_reads plugins hparser hreads
      cases hresult : (plugins.convert (settings.optionsWith parser) text).outcome with
      | error fault => exact .inl (hfailed s fault hlogs (by rw [hrun, hresult]; rfl))
      | ok document => exact .inr ⟨_, parser, text, document, hparser, hreads, hresult, rfl⟩
  · exact .inl (hfailed _ _ hstart (run_of_unknown (not_exists.mp hknown)))

/-- The exit code after a conversion that failed is that of its fault. -/
theorem exit_run_of_error {parser : Parser} {text : Text} {fault : Fault}
    (hparser : settings.parser = parser.name) (htext : settings.reads store around time = .ok text)
    (hfault : (plugins.convert (settings.optionsWith parser) text).outcome = .error fault) :
    (run plugins settings store around time).exit = fault.failure.exitCode := by
  obtain ⟨s, -, hrun⟩ := run_of_reads plugins hparser htext
  rw [hrun, hfault]
  exact Session.exit_failWith s fault

/-- An unknown parser ends every run alike, whatever its input. -/
theorem run_input_of_unknown (h : ∀ parser : Parser, settings.parser ≠ parser.name)
    (input : Text) (stdin : Except Text Text) :
    run plugins { settings with input := input } store { around with stdin := stdin } time =
      run plugins settings store around time := by
  have hother : run plugins { settings with input := input } store
      { around with stdin := stdin } time =
        (Session.start settings store { around with stdin := stdin } time).failWith
          (.invalidParser (.text settings.parser)) := run_of_unknown h
  rw [hother, run_of_unknown h, Session.start_withStdin, Session.failWith_withStdin]

end

/-- A directory with one file in it. -/
def oneFile (name content : Text) : FileStore :=
  ⟨"/w".toList, [([['w']], .directory), ([['w'], name], .file (Text.encodeUtf8 content))]⟩

/-- Standard output that takes one character and then fails. -/
def Surroundings.brokenPipe (stdin : Text) : Surroundings :=
  { working stdin with stdoutFault := fun _ => some (1, "[Errno 32] Broken pipe".toList) }

/-- Text that has no bytes, as half of a surrogate pair has none. -/
def Surroundings.halved (stdin : Text) : Surroundings :=
  { working stdin with encodeFault := fun _ => some "surrogates not allowed".toList }

end Hypermark.Command
