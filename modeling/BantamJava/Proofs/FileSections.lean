/-
# What a run says about each of its files

A run takes its files one after another, and what it says about one of them does not
depend on the others: the output is made of one section for each file (`fileSection`),
and the errors of a line for each file that cannot be read (`fileErrors`). Such a file has
nothing but a header in the output, and the files behind it are taken all the same. The
exit code is 0 exactly if every file could be read and is a program (`IsProgram`), and
otherwise it is 1.

A section is written out here word by word from the faults and the tree that the parser
found: the header, for each fault its line and its rendering, how many there are, and the
tree if it was asked for. This holds if every rendering is possible, that is if no fault
asks for an arrow wider than 65535 (`Fault.Fits`).

A run is a recursion over the files, so what one of them adds (`reportFile_eq`) gives what
they add together by induction (`runFiles_eq`). That a file adds no failure exactly if it
is a program is what is known of the parser.

Key definitions: `IsProgram`, `Cause.wording`, `Fault.written`, `Fault.Fits`,
`fileSection`, `fileErrors`.
Key theorems: `diagnostics_eq_nil_iff_isProgram`, `Diagnostic.render?_ofFault`,
`reportFile_eq`, `runFiles_eq`, `answer_by_file`.
-/
import BantamJava.CommandLine
import BantamJava.Proofs.Caret
import BantamJava.Proofs.Spelling
import BantamJava.Proofs.TreeText

namespace BantamJava

/-! ### Programs -/

/-- The text is a program: its lexemes yield tokens only, and these are classes of the
grammar, one after another. -/
def IsProgram (text : String) : Prop :=
  ∃ lexemes ts classes, Tiles .start text.toList lexemes (ts.map .token) ∧
    Many ClassPhrase ts classes

/-- **A text has no diagnostics exactly if it is a program.** -/
theorem diagnostics_eq_nil_iff_isProgram (text file : String) :
    (parse text file).diagnostics = [] ↔ IsProgram text := by
  have hend : NoEnd (Source.ofText text file).items := noEnd_items (Reader.ofText text file)
  obtain ⟨ls, hls⟩ := (Reader.ofText text file).tiles_items
  show (Session.start file (.ofText text file)).parse.2.diagnostics = [] ↔ _
  rw [Session.diagnostics_eq_nil_iff]
  constructor
  · rintro ⟨hfaults, cs, hcs⟩
    have htokens := (tokensOf_eq_ok_iff hend).2 ⟨hfaults, rfl⟩
    refine ⟨ls, _, cs, ?_, hcs⟩
    show Tiles _ _ ls ((tokensAhead (Source.ofText text file).items).map .token)
    rw [← eq_map_of_tokensOf htokens]
    exact hls
  · rintro ⟨ls', ts, cs, htiles, hcs⟩
    obtain ⟨-, hitems⟩ := hls.unique htiles
    have htokens : tokensOf (Source.ofText text file).items = .ok ts := by
      rw [← tokensOf_map_token ts, hitems]
      rfl
    obtain ⟨hfaults, rfl⟩ := (tokensOf_eq_ok_iff hend).1 htokens
    exact ⟨hfaults, cs, hcs⟩

/-! ### Faults in words -/

/-- The words that a fault is told in. -/
structure Wording where
  tier : String
  name : String
  message : String
  /-- What stands in parentheses behind the name, if anything. -/
  advice : Option String

/-- The words for a cause. -/
def Cause.wording : Cause → Wording
  | .unrecognised found =>
    ⟨"Lex", "UnrecognisedToken", "unrecognised token: " ++ quoted found, none⟩
  | .unterminatedString literal =>
    ⟨"Lex", "UnterminatedString", "unterminated string constant: " ++ quoted literal,
      some "String constants must be closed with `\"` on the line they start"⟩
  | .unterminatedComment =>
    ⟨"Lex", "UnterminatedComment", "unterminated block comment",
      some "Block comment is missing its closing `*/`"⟩
  | .badNumber found =>
    ⟨"Lex", "NumberParseError", "error parsing number: " ++ quoted found,
      some ("Invalid number: `" ++ found ++ "`, is it above the integer limit?")⟩
  | .unexpected found =>
    ⟨"Parse", "UnexpectedToken", "unexpected token: " ++ quoted found,
      some ("Unexpected token: `" ++ found ++ "`, did you miss a semicolon?")⟩
  | .unexpectedFor found expectation =>
    ⟨"Parse", "UnexpectedTokenDetailed",
      "unexpected token (" ++ expectation ++ "): " ++ quoted found,
      some ("Unexpected token: `" ++ found ++ "`, " ++ expectation)⟩
  | .expected kind found =>
    ⟨"Parse", "ExpectedToken", "expected " ++ kind.describe ++ ", found " ++ quoted found,
      some ("Expected `" ++ kind.describe ++ "`, found `" ++ found ++ "`")⟩
  | .missingInitializer variableName =>
    ⟨"Parse", "MissingInitializer",
      "local variable " ++ quoted variableName ++ " must be initialized",
      some ("Local variable `" ++ variableName ++ "` must be initialized with `= <expression>`")⟩

/-- The length of a line's indentation. -/
def indentation (line : List Char) : Nat :=
  (line.takeWhile fun c => c == ' ' || c == '\t').length

/-- What stands to the left of a source line's excerpt, where there is no line number. -/
def margin (p : Position) : String :=
  String.ofList (List.replicate ((toString p.line).length + 1) ' ') ++ "|"

/-- A source line between two margins, of which the second one holds an arrow to the
position. -/
def pointedLine (p : Position) (line : List Char) : String :=
  margin p ++ "\n"
    ++ toString p.line ++ " | "
    ++ String.ofList ((line.drop (indentation line)).rdropWhile isBlank) ++ "\n"
    ++ margin p ++ " "
    ++ String.ofList (List.replicate (max 1 (p.column.toNat - indentation line) - 1) '-') ++ "^\n"

namespace Fault

/-- The arrow to the fault is no wider than an arrow can be. -/
def Fits (f : Fault) (source : String) : Prop :=
  ∀ line ∈ lineAt? f.position.line.toNat source.toList,
    f.position.column.toNat - indentation line ≤ 65535

instance (f : Fault) (source : String) : Decidable (f.Fits source) :=
  inferInstanceAs (Decidable (∀ line ∈ lineAt? f.position.line.toNat source.toList, _))

/-- The line that tells of a fault in a file. -/
def told (f : Fault) (path : String) : String :=
  f.cause.wording.tier ++ " error in " ++ path ++ " at line " ++ toString f.position.line
    ++ ", column " ++ toString f.position.column ++ ": " ++ f.cause.wording.message

/-- The first two lines of the rendering of a fault. -/
def headed (f : Fault) (path : String) : String :=
  "Error: " ++ f.cause.wording.name
    ++ f.cause.wording.advice.elim "" (fun advice => " (" ++ advice ++ ")")
    ++ "\n-> " ++ path ++ ":"
    ++ (toString f.position.line ++ ":" ++ toString f.position.column) ++ "\n"

/-- What a run says about a fault in a file: one line, and the rendering with the source
line that it concerns, if there is one. -/
def written (f : Fault) (path source : String) : String :=
  f.told path ++ "\n" ++ (f.headed path ++
    match lineAt? f.position.line.toNat source.toList with
    | some line => pointedLine f.position line
    | none => "")

end Fault

namespace Diagnostic

theorem takeWhile_isIndent (line : List Char) :
    (line.takeWhile isIndent).length = indentation line := rfl

theorem excerpt_eq_pointedLine (p : Position) (line : List Char) :
    excerpt p line = pointedLine p line := by
  refine String.toList_inj.1 ?_
  rw [toList_excerpt]
  simp [pointedLine, margin, marginLine, shownLine, arrowLine, arrowWidth, takeWhile_isIndent]

theorem text_ofFault (path : String) (f : Fault) : (ofFault path f).text = f.told path := by
  have htier : f.tier.text = f.cause.wording.tier := by
    rw [Fault.tier]
    cases f.cause <;> rfl
  have hmessage : f.cause.message = f.cause.wording.message := by cases f.cause <;> rfl
  rw [Fault.told, ← htier, ← hmessage]
  rfl

theorem heading_ofFault (path : String) (f : Fault) :
    (ofFault path f).heading = f.headed path := by
  have hname : f.cause.name = f.cause.wording.name := by cases f.cause <;> rfl
  have hadvice : f.cause.tip? = f.cause.wording.advice := by cases f.cause <;> rfl
  rw [Fault.headed, ← hname, ← hadvice]
  cases htip : f.cause.tip? with
  | none => simp only [heading, ofFault, htip, Option.elim_none, Position.text]
  | some tip => simp only [heading, ofFault, htip, Option.elim_some, Position.text]

/-- What is shown of a fault whose arrow is not too wide: its line and its rendering. -/
theorem render?_ofFault {f : Fault} {source : String} (path : String) (h : f.Fits source) :
    ∃ rendering, (ofFault path f).render? source = some rendering ∧
      (ofFault path f).text ++ "\n" ++ rendering = f.written path source := by
  rw [text_ofFault, Fault.written]
  cases hline : lineAt? f.position.line.toNat source.toList with
  | none =>
    refine ⟨f.headed path, ?_, by rw [String.append_empty]⟩
    simp only [render?, ← heading_ofFault, ofFault, hline]
  | some line =>
    have hwidth : arrowWidth f.position.column.toNat line ≤ maxArrow := by
      have hfits : f.position.column.toNat - indentation line ≤ 65535 := h line hline
      rw [arrowWidth, takeWhile_isIndent, maxArrow]
      omega
    refine ⟨f.headed path ++ pointedLine f.position line, ?_, rfl⟩
    simp only [render?, ← heading_ofFault, ← excerpt_eq_pointedLine, ofFault, hline]
    exact if_pos hwidth

end Diagnostic

/-! ### Sections -/

/-- What the output of a run holds for a file with the given name and content. -/
def fileSection (outline : Bool) (path : String) : Except ReadFault String → String
  | .error _ => "========== " ++ path ++ " ==========\n"
  | .ok source =>
    let parsed := parse source path
    let faults := parsed.diagnostics.map (·.fault)
    "========== " ++ path ++ " ==========\n"
      ++ String.join (faults.map fun f => f.written path source)
      ++ (if faults.length = 0 then "Parsing was successful!\n"
        else if faults.length = 1 then "1 error was found.\n"
        else toString faults.length ++ " errors were found.\n")
      ++ (if outline then parsed.program.datum.written 0 ++ "\n" else "")

/-- What the errors of a run hold for a file with the given content. -/
def fileErrors : Except ReadFault String → String
  | .error (.notFound path) => "ERROR: file " ++ path ++ " not found\n"
  | .error (.unreadable path) => "ERROR: file " ++ path ++ " could not be read\n"
  | .ok _ => ""

theorem summary_eq (n : Nat) : summary n =
    if n = 0 then "Parsing was successful!\n"
    else if n = 1 then "1 error was found.\n"
    else toString n ++ " errors were found.\n" := by
  rcases n with _ | _ | n
  · rfl
  · rfl
  · rw [if_neg (by omega), if_neg (by omega)]
    rfl

/-- The diagnostics of a text are those of its faults. -/
theorem diagnostics_eq_ofFault (text file : String) : (parse text file).diagnostics =
    ((parse text file).diagnostics.map (·.fault)).map (.ofFault file) := by
  let session := Session.start file (.ofText text file)
  obtain ⟨cs, hcs⟩ := (Parser.classes_ends session.table session.cursor).1
  have hfaults := Session.faults_parse hcs
  have hdiagnostics := Session.diagnostics_parse hcs
  rw [← hfaults] at hdiagnostics
  exact hdiagnostics

theorem showDiagnostics_of_fits (path : String) {source : String} {faults : List Fault}
    (h : ∀ f ∈ faults, f.Fits source) :
    showDiagnostics source (faults.map (.ofFault path)) =
      (String.join (faults.map fun f => f.written path source), true) := by
  induction faults with
  | nil => simp [showDiagnostics]
  | cons f faults ih =>
    obtain ⟨hf, hfaults⟩ := List.forall_mem_cons.1 h
    obtain ⟨rendering, hrender, hwritten⟩ := Diagnostic.render?_ofFault path hf
    simp only [List.map_cons, showDiagnostics, hrender, ih hfaults, String.join_cons, hwritten]

/-! ### Runs -/

/-- The file could be read, and is a program. -/
def IsProgramFile (answer : Except ReadFault String) : Prop :=
  ∃ source, answer = .ok source ∧ IsProgram source

/-- Every fault of the file can be rendered. -/
def Renders (path : String) (answer : Except ReadFault String) : Prop :=
  ∀ source, answer = .ok source → ∀ d ∈ (parse source path).diagnostics, d.fault.Fits source

/-- **What one file adds to a run**: its section, its line among the errors, and a failure
unless it is a program. -/
theorem reportFile_eq {o : Options} {path : String} {answer : Except ReadFault String}
    (h : Renders path answer) :
    let report := reportFile o path answer
    report.output = fileSection o.outline path answer ∧ report.errors = fileErrors answer ∧
      report.aborted = false ∧ (report.failed = false ↔ IsProgramFile answer) := by
  cases answer with
  | error e =>
    refine ⟨rfl, ?_, rfl, by simp [reportFile, IsProgramFile]⟩
    refine String.toList_inj.1 ?_
    cases e <;> simp [reportFile, fileErrors, ReadFault.message]
  | ok source =>
    have hfits : ∀ f ∈ (parse source path).diagnostics.map (·.fault), f.Fits source :=
      List.forall_mem_map.2 (h source rfl)
    have hshown := showDiagnostics_of_fits path hfits
    rw [← diagnostics_eq_ofFault] at hshown
    have hreport : reportFile o path (.ok source) = ⟨fileSection o.outline path (.ok source), "",
        logLines (logLevel o.verbosity) path (parse source path).journal,
        !(parse source path).diagnostics.isEmpty, false⟩ := by
      simp only [reportFile, hshown, if_true, fileSection, summary_eq, List.length_map,
        Program.text_outline, fileHeader]
    rw [hreport]
    refine ⟨rfl, rfl, rfl, ?_⟩
    simp [IsProgramFile, diagnostics_eq_nil_iff_isProgram]

/-- **What the files of a run add together**: one section after another, and a failure
unless all of them are programs. -/
theorem runFiles_eq {o : Options} {files : List (String × Except ReadFault String)}
    (h : ∀ f ∈ files, Renders f.1 f.2) :
    let run := runFiles o files
    (run.exitCode = 0 ↔ ∀ f ∈ files, IsProgramFile f.2) ∧
      (run.exitCode = 0 ∨ run.exitCode = 1) ∧
      run.output = String.join (files.map fun f => fileSection o.outline f.1 f.2) ∧
      run.errors = String.join (files.map fun f => fileErrors f.2) := by
  induction files with
  | nil => exact ⟨by simp [runFiles], .inl rfl, by simp [runFiles], by simp [runFiles]⟩
  | cons f files ih =>
    obtain ⟨path, answer⟩ := f
    obtain ⟨hf, hfiles⟩ := List.forall_mem_cons.1 h
    obtain ⟨houtput, herrors, haborted, hfailed⟩ := reportFile_eq (o := o) hf
    obtain ⟨hzero, hcode, houtputs, herrorss⟩ := ih hfiles
    simp only [runFiles, haborted, Bool.false_eq_true, if_false, List.map_cons, String.join_cons,
      houtput, herrors, houtputs, herrorss, List.forall_mem_cons]
    refine ⟨?_, ?_, trivial, trivial⟩
    · rw [← hzero, ← hfailed]
      cases (reportFile o path answer).failed with
      | false => simp
      | true =>
        simp only [and_true, reduceCtorEq, false_and, iff_false]
        split <;> omega
    · split
      · exact .inr rfl
      · exact hcode

/-- **A run answers for each of its files on its own.** If every rendering is possible, the
exit code is 0 exactly if every file can be read and is a program, and otherwise 1. The
output holds one section for each file in their order, written from the name and the content
of that file alone: the header, what there is to say about each fault, how many faults there
are, and the tree if it was asked for. A file that cannot be read has its header there and
one line among the errors, where nothing else is written. -/
theorem answer_by_file (read : String → Except ReadFault String) (o : Options)
    (hfits : ∀ path ∈ o.files, ∀ source, read path = .ok source →
      ∀ d ∈ (parse source path).diagnostics, d.fault.Fits source) :
    let run := answer read (.parseFiles o)
    (run.exitCode = 0 ↔ ∀ path ∈ o.files, ∃ source, read path = .ok source ∧ IsProgram source) ∧
    (run.exitCode = 0 ∨ run.exitCode = 1) ∧
    run.output = String.join (o.files.map fun path => fileSection o.outline path (read path)) ∧
    run.errors = String.join (o.files.map fun path => fileErrors (read path)) := by
  have hrenders : ∀ f ∈ o.files.map (fun path => (path, read path)), Renders f.1 f.2 := by
    intro f hf
    obtain ⟨path, hpath, rfl⟩ := List.mem_map.1 hf
    exact hfits path hpath
  obtain ⟨hzero, hcode, houtput, herrors⟩ := runFiles_eq (o := o) hrenders
  refine ⟨?_, hcode, ?_, ?_⟩
  · rw [List.forall_mem_map] at hzero
    exact hzero
  · rw [List.map_map] at houtput
    exact houtput
  · rw [List.map_map] at herrors
    exact herrors

/-- A missing file between a program and a text with two faults: the run goes on behind it,
and fails. -/
theorem answer_by_file_missing :
    let read (path : String) : Except ReadFault String :=
      if path = "good" then .ok "class A \x7b int x; \x7d"
      else if path = "bad" then .ok "class #A"
      else .error (.notFound path)
    let run := answer read (.parseFiles ⟨["good", "gone", "bad"], true, 0⟩)
    run.exitCode = 1 ∧
    run.errors = "ERROR: file gone not found\n" ∧
    run.output = String.join (List.map (· ++ "\n")
      ["========== good ==========",
       "Parsing was successful!",
       "Program \x7b",
       "    classes: [",
       "        Class \x7b",
       "            name: \"A\",",
       "            parent: None,",
       "            members: [",
       "                Field(",
       "                    Field \x7b",
       "                        type_name: \"int\",",
       "                        name: \"x\",",
       "                        init: None,",
       "                        position: Position \x7b",
       "                            line: 1,",
       "                            column: 11,",
       "                        \x7d,",
       "                    \x7d,",
       "                ),",
       "            ],",
       "            position: Position \x7b",
       "                line: 1,",
       "                column: 1,",
       "            \x7d,",
       "        \x7d,",
       "    ],",
       "    position: Position \x7b",
       "        line: 1,",
       "        column: 1,",
       "    \x7d,",
       "\x7d",
       "========== gone ==========",
       "========== bad ==========",
       "Lex error in bad at line 1, column 7: unrecognised token: \"#\"",
       "Error: UnrecognisedToken",
       "-> bad:1:7",
       "  |",
       "1 | class #A",
       "  | ------^",
       "Parse error in bad at line 1, column 9: expected \x7b, found \"EOF\"",
       "Error: ExpectedToken (Expected `\x7b`, found `EOF`)",
       "-> bad:1:9",
       "  |",
       "1 | class #A",
       "  | --------^",
       "2 errors were found.",
       "Program \x7b",
       "    classes: [],",
       "    position: Position \x7b",
       "        line: 1,",
       "        column: 1,",
       "    \x7d,",
       "\x7d"]) := by
  intro read run
  have hgone : read "gone" = .error (.notFound "gone") := rfl
  have hfits : ∀ path ∈ ["good", "gone", "bad"], ∀ source, read path = .ok source →
      ∀ d ∈ (parse source path).diagnostics, d.fault.Fits source := by
    have hgood : read "good" = .ok "class A \x7b int x; \x7d" := rfl
    have hbad : read "bad" = .ok "class #A" := rfl
    simp only [List.forall_mem_cons, hgood, hgone, hbad, Except.ok.injEq, forall_eq']
    exact ⟨by decide +kernel, nofun, by decide +kernel, nofun⟩
  obtain ⟨hzero, hcode, houtput, herrors⟩ :=
    answer_by_file read ⟨["good", "gone", "bad"], true, 0⟩ hfits
  refine ⟨hcode.resolve_left fun h => ?_, ?_, ?_⟩
  · obtain ⟨source, hsource, -⟩ := hzero.1 h "gone" (by decide)
    rw [hgone] at hsource
    cases hsource
  · rw [herrors]
    decide +kernel
  · rw [houtput]
    decide +kernel

end BantamJava
