import WardenSdk.ConfigLint.Flattened
import WardenSdk.ConfigLint.IniLayout

/-!
# The command-line gate

`tools/config-lint/src/main.rs` is what CI runs: it takes the two paths from the
arguments, reads the two files, hands them to the parsers and exits with the verdict of
the check.

A host gives what the program does not compute itself: what reading a path gives, and how
a string is quoted for a message.  `main_of_declared` joins the two halves of the gate.
On a loader file that declares some loads and a flattened devicetree that prints some
ranges, the exit code is success exactly when every declared load lies inside a range, and
otherwise each load outside is named, in order.  `main_exit_success_iff` says for any
files and arguments what a success means.
-/

namespace WardenSdk
namespace ConfigLint

open Lib

structure Host where
  /-- `std::fs::read_to_string`, with the text of its error. -/
  readToString : Text → Except Text Text
  /-- The quoted form `{:?}` of a string. -/
  debug : Text → Text

structure Outcome where
  stdout : List Text
  stderr : List Text
  exitCode : ℕ
  deriving DecidableEq

def exitSuccess : ℕ := 0
def exitFailure : ℕ := 1
def exitUsage : ℕ := 2

def usageLine : Text := "usage: config-lint --ini <loader.ini> --dt <devicetree.dts>".toList

structure Paths where
  ini : Option Text
  dt : Option Text
  deriving DecidableEq

/-- Where the loop over the arguments stops. -/
inductive ArgsRead where
  | paths (p : Paths)
  | help
  | unknown (arg : Text)
  deriving DecidableEq

/-- The loop over the arguments.  A path argument takes the word after it, whatever that
is, and is taken back when there is none. -/
def readArgs (p : Paths) : List Text → ArgsRead
  | [] => .paths p
  | [a] =>
    if a = "--ini".toList then .paths { p with ini := none }
    else if a = "--dt".toList then .paths { p with dt := none }
    else if a = "-h".toList ∨ a = "--help".toList then .help
    else .unknown a
  | a :: value :: rest =>
    if a = "--ini".toList then readArgs { p with ini := some value } rest
    else if a = "--dt".toList then readArgs { p with dt := some value } rest
    else if a = "-h".toList ∨ a = "--help".toList then .help
    else .unknown a

def cannotRead (path e : Text) : Outcome where
  stdout := []
  stderr := ["config-lint: cannot read ".toList ++ path ++ ": ".toList ++ e]
  exitCode := exitUsage

/-- What is printed about what was read. -/
def summary (iniPath dtPath : Text) (loads : List McuLoad) (reserved : List Range) : Text :=
  if loads.isEmpty then
    "config-lint: no boot-loaded MCU firmware in ".toList ++ iniPath ++
      ": nothing to reserve.".toList
  else
    "config-lint: ".toList ++ decimal loads.length ++ " MCU load(s) in ".toList ++ iniPath ++
      ", ".toList ++ decimal reserved.length ++ " reserved-memory range(s) in ".toList ++ dtPath ++
      ".".toList

/-- The check and its report. -/
def report (iniPath dtPath : Text) (loads : List McuLoad) (reserved : List Range) : Outcome :=
  let findings := check loads reserved
  if findings.isEmpty then
    { stdout := [summary iniPath dtPath loads reserved,
        "config-lint: OK: every MCU load is inside a reserved-memory node.".toList]
      stderr := []
      exitCode := exitSuccess }
  else
    { stdout := [summary iniPath dtPath loads reserved]
      stderr := findings.map fun f => "config-lint: FAIL: ".toList ++ f.msg
      exitCode := exitFailure }

def main (host : Host) (args : List Text) : Outcome :=
  match readArgs ⟨none, none⟩ args with
  | .help => ⟨[], [usageLine], exitSuccess⟩
  | .unknown other =>
    ⟨[], ["config-lint: unknown argument ".toList ++ host.debug other], exitUsage⟩
  | .paths ⟨some iniPath, some dtPath⟩ =>
    match host.readToString iniPath with
    | .error e => cannotRead iniPath e
    | .ok ini =>
      match host.readToString dtPath with
      | .error e => cannotRead dtPath e
      | .ok dt => report iniPath dtPath (parseIniMcuLoads ini) (parseReservedRanges dt)
  | .paths _ => ⟨[], [usageLine], exitUsage⟩

/-! ## The arguments -/

/-- A path argument and its value. -/
inductive PathArg where
  | ini (path : Text)
  | dt (path : Text)
  deriving DecidableEq

def PathArg.words : PathArg → List Text
  | .ini path => ["--ini".toList, path]
  | .dt path => ["--dt".toList, path]

def Paths.set (p : Paths) : PathArg → Paths
  | .ini path => { p with ini := some path }
  | .dt path => { p with dt := some path }

/-- **Of several paths the last one counts.** -/
theorem readArgs_words (p : Paths) (args : List PathArg) :
    readArgs p (args.flatMap PathArg.words) = .paths (args.foldl Paths.set p) := by
  induction args generalizing p with
  | nil => rfl
  | cons arg args ih =>
    rw [List.flatMap_cons, List.foldl_cons, ← ih]
    cases arg with
    | ini path => exact if_pos rfl
    | dt path => exact (if_neg (by decide)).trans (if_pos rfl)

/-! ## The verdict -/

theorem check_eq_nil_iff {loads : List McuLoad} {reserved : List Range} :
    check loads reserved = [] ↔ ∀ l ∈ loads, ∃ r ∈ reserved, r.contains l.loadAddr = true := by
  rw [check, List.map_eq_nil_iff, List.filter_eq_nil_iff]
  simp only [Bool.not_eq_true', Bool.not_eq_false, List.any_eq_true]

/-- A report is a success exactly when every load is covered, and a failure names the
loads that are not. -/
theorem report_verdict (iniPath dtPath : Text) (loads : List McuLoad) (reserved : List Range) :
    ((report iniPath dtPath loads reserved).exitCode = exitSuccess ↔
      ∀ l ∈ loads, ∃ r ∈ reserved, r.contains l.loadAddr = true) ∧
    ((report iniPath dtPath loads reserved).exitCode ≠ exitSuccess →
      (report iniPath dtPath loads reserved).exitCode = exitFailure) ∧
    (report iniPath dtPath loads reserved).stderr =
      (loads.filter fun l => !reserved.any fun r => r.contains l.loadAddr).map fun l =>
        "config-lint: FAIL: ".toList ++ (findingFor l).msg := by
  have hfindings : (check loads reserved).map (fun f => "config-lint: FAIL: ".toList ++ f.msg) =
      (loads.filter fun l => !reserved.any fun r => r.contains l.loadAddr).map fun l =>
        "config-lint: FAIL: ".toList ++ (findingFor l).msg := by
    rw [check, List.map_map]
    rfl
  rw [← check_eq_nil_iff, ← hfindings]
  unfold report
  cases check loads reserved with
  | nil => exact ⟨⟨fun _ => rfl, fun _ => rfl⟩, fun h => absurd rfl h, rfl⟩
  | cons f fs =>
    have hfailed : exitFailure ≠ exitSuccess := by decide
    exact ⟨⟨fun h => absurd h hfailed, fun h => absurd h (List.cons_ne_nil f fs)⟩,
      fun _ => rfl, rfl⟩

theorem main_of_read {host : Host} {args : List Text} {iniPath dtPath ini dt : Text}
    (hargs : readArgs ⟨none, none⟩ args = .paths ⟨some iniPath, some dtPath⟩)
    (hini : host.readToString iniPath = .ok ini) (hdt : host.readToString dtPath = .ok dt) :
    main host args = report iniPath dtPath (parseIniMcuLoads ini) (parseReservedRanges dt) := by
  simp only [main, hargs, hini, hdt]

/-- **What a success means**, for any arguments and files: help was asked for, or both
files were given and read, and every load found in the one lies inside a range found in
the other.  A missing argument, an unknown one and an unreadable file are never a
success. -/
theorem main_exit_success_iff (host : Host) (args : List Text) :
    (main host args).exitCode = exitSuccess ↔
      readArgs ⟨none, none⟩ args = .help ∨
      ∃ iniPath dtPath ini dt, readArgs ⟨none, none⟩ args = .paths ⟨some iniPath, some dtPath⟩ ∧
        host.readToString iniPath = .ok ini ∧ host.readToString dtPath = .ok dt ∧
        ∀ l ∈ parseIniMcuLoads ini, ∃ r ∈ parseReservedRanges dt, r.contains l.loadAddr = true := by
  constructor
  · intro h
    unfold main at h
    split at h
    · exact .inl ‹_›
    · exact absurd h (by decide : exitUsage ≠ exitSuccess)
    · rename_i iniPath dtPath hargs
      refine .inr ⟨iniPath, dtPath, ?_⟩
      split at h
      · exact absurd h (by decide : exitUsage ≠ exitSuccess)
      · rename_i ini hini
        split at h
        · exact absurd h (by decide : exitUsage ≠ exitSuccess)
        · rename_i dt hdt
          exact ⟨ini, dt, hargs, hini, hdt, (report_verdict _ _ _ _).1.mp h⟩
    · exact absurd h (by decide : exitUsage ≠ exitSuccess)
  · rintro (hhelp | ⟨iniPath, dtPath, ini, dt, hargs, hini, hdt, hcovered⟩)
    · unfold main
      rw [hhelp]
    · rw [main_of_read hargs hini hdt]
      exact (report_verdict _ _ _ _).1.mpr hcovered

/-! ## The two halves together -/

/-- The loads of a file that declares them. -/
theorem parseIniMcuLoads_text {file : IniFile} {loaders : List (ℕ × Text)}
    {addrs : ℕ → Option UInt64} (h : Renders file loaders addrs) :
    parseIniMcuLoads file.text = declaredLoads loaders addrs := by
  rw [parseIniMcuLoads_eq, entries_text, h.loaders_eq, List.filterMap_map, declaredLoads]
  refine List.filterMap_congr fun e _ => ?_
  have haddr := h.getAddr_eq e.1
  simp only [Function.comp_apply, ← paramSection.eq_1, haddr, isKnownSafeLoader, decide_eq_true_eq]

/-- **The gate, from one file to the other.**  However the loader file is laid out, and
whatever stands around and inside the reserved-memory node of the devicetree, the program
succeeds exactly when every coprocessor load that the file declares starts inside one of
the ranges the node prints.  Otherwise it fails, and names the loads outside, all of them
and in their order. -/
theorem main_of_declared {host : Host} {args : List Text} {iniPath dtPath : Text} {file : IniFile}
    {src : Source} {loaders : List (ℕ × Text)} {addrs : ℕ → Option UInt64}
    (hargs : readArgs ⟨none, none⟩ args = .paths ⟨some iniPath, some dtPath⟩)
    (hini : host.readToString iniPath = .ok file.text)
    (hdt : host.readToString dtPath = .ok src.text) (hfile : Renders file loaders addrs)
    (hsrc : ∀ r ∈ src.body.regs, ∀ c ∈ r.beforeEquals.text, isRegSpace c = true) :
    ((main host args).exitCode = exitSuccess ↔
      ∀ l ∈ declaredLoads loaders addrs, ∃ r ∈ src.pairs, r.contains l.loadAddr = true) ∧
    ((main host args).exitCode ≠ exitSuccess → (main host args).exitCode = exitFailure) ∧
    (main host args).stderr =
      ((declaredLoads loaders addrs).filter fun l =>
        !src.pairs.any fun r => r.contains l.loadAddr).map fun l =>
          "config-lint: FAIL: ".toList ++ (findingFor l).msg := by
  have hranges : parseReservedRanges src.text = src.pairs := by
    have hplain : ∀ r ∈ src.body.regs, r.plain = true := fun r hr => List.all_eq_true.mpr (hsrc r hr)
    rw [parseReservedRanges_text, Source.pairs, List.filter_eq_self.mpr hplain]
  rw [main_of_read hargs hini hdt, parseIniMcuLoads_text hfile, hranges]
  exact report_verdict _ _ _ _

def tabBlank : Blank := ⟨"\t".toList, by simp [isWhitespace]⟩

/-- A devicetree that reserves the range of the loader file's firmware. -/
def rtosReservation : Source where
  before := "/\t\x7b\t".toList
  no_word_before := by decide
  gap := tabBlank
  body := .node tabBlank ⟨"rtos@00040000".toList, by simp [isNameChar]⟩ tabBlank
    (.reg tabBlank
      { beforeEquals := tabBlank
        afterEquals := tabBlank
        beforeAddr := tabBlank
        addr := ⟨.hex, "00040000".toList, by decide, by simp [digit, Spelling.radix], by decide⟩
        between := tabBlank
        between_ne_nil := by decide
        size := ⟨.hex, "0003c000".toList, by decide, by simp [digit, Spelling.radix], by decide⟩
        afterSize := tabBlank
        afterBracket := tabBlank }
      (.done tabBlank))
    tabBlank (.done tabBlank)
  after := ";\t\x7d;".toList
  no_word_after := by decide

/-- A host with these two files. -/
def twoFileHost : Host where
  readToString path :=
    if path = "loader.ini".toList then .ok scrambledFile.text
    else if path = "board.dts".toList then .ok rtosReservation.text
    else .error "No such file or directory (os error 2)".toList
  debug s := "\"".toList ++ s ++ "\"".toList

theorem main_of_declared_rtos :
    (main twoFileHost ["--dt".toList, "board.dts".toList, "--ini".toList,
      "loader.ini".toList]).exitCode = exitSuccess := by
  have hargs := readArgs_words ⟨none, none⟩ [.dt "board.dts".toList, .ini "loader.ini".toList]
  have hini : twoFileHost.readToString "loader.ini".toList = .ok scrambledFile.text := rfl
  have hdt : twoFileHost.readToString "board.dts".toList = .ok rtosReservation.text := rfl
  have hsrc : ∀ r ∈ rtosReservation.body.regs, ∀ c ∈ r.beforeEquals.text, isRegSpace c = true :=
    List.forall_mem_singleton.mpr (by simp [tabBlank, isRegSpace])
  refine (main_of_declared hargs hini hdt scrambledFile_renders hsrc).1.mpr ?_
  decide

end ConfigLint
end WardenSdk
