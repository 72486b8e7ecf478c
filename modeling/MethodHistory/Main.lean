import MethodHistory.CommandLine.Report

/-!
This module contains the program: it reads the files that the arguments name, and prints and writes
what the command line leads to.
-/

namespace MethodHistory
namespace CommandLine

structure Backend where
  limits : NameLimits
  engine : Engine
  connect : Opening → IO (Except OpeningFault Source)

def Backend.offline : Backend :=
  { limits := ⟨255, 4095⟩
    engine := fun previous _ => .error (.comparison (.syntaxErrors previous.label))
    connect := fun opening =>
      let fault : RepositoryFault :=
        match Location.ofText opening.repository.shown with
        | .ok (.hosted address) =>
          .unlistedCommits (address.owner ++ "/" ++ address.name) "no connection"
        | .ok (.directory path) => .notARepository path
        | .error fault => fault
      pure (.error (.failed (.repository fault))) }

def readContent (path : String) : IO (Except FileFault ByteArray) := do
  try
    pure (.ok (← IO.FS.readBinFile path))
  catch error =>
    pure (.error ⟨troubleOf error, path⟩)
where
  troubleOf : IO.Error → FileTrouble
    | .noFileOrDirectory .. => .missing
    | .permissionDenied .. => .denied
    -- a folder opens like a file and is refused, without its name, when it is read
    | .inappropriateType none .. => .isDirectory
    | .inappropriateType (some _) .. => .notADirectory
    | .invalidArgument _ 22 _ => .nullCharacter
    | .invalidArgument .. => .nameTooLong
    | error => .other 5 (toString error)

def readOutput (path : String) : IO (Except OutputFault String) := do
  match ← readContent path with
  | .error ⟨.missing, _⟩ => pure (.ok "")
  | content => pure ((content.map Text.Utf8.toText).mapError .file)

def usage : String :=
  "usage: changemine repo " ++ " ".intercalate
    (Switch.all.map fun switch =>
      "[" ++ switch.title ++ (if switch.takesValue then " VALUE]" else "]"))

def finish (report : Report) : IO UInt32 := do
  report.lines.forM IO.println
  report.errors.forM IO.eprintln
  if let some (path, content) := report.output then
    IO.FS.writeFile path content
  match report.ending with
  | .help =>
    IO.println usage
    pure 0
  | .usage fault =>
    IO.eprintln usage
    IO.eprintln fault.message
    pure 2
  | .status code => pure code.toUInt32
  | .escaped (.settings fault) => failWith fault.message
  | .escaped (.output fault) => failWith fault.message
  | .escaped (.failure failure) => failWith failure.message
where
  failWith (message : String) : IO UInt32 := do
    IO.eprintln message
    pure 1

def run (backend : Backend) (texts : List String) : IO UInt32 := do
  let token := Json.ofText? (← IO.getEnv "GITHUB_TOKEN")
  let .ok arguments := Arguments.ofTexts texts | finish (report (surroundings token) texts)
  let file ←
    match arguments.config.filter (!·.isEmpty) with
    | some path => readContent path
    | none => pure (.ok .empty)
  let environment := { surroundings token with settingsFile := fun _ => file }
  let .ok (settings, warnings) := settingsOf environment arguments
    | finish (report environment texts)
  warnings.forM IO.eprintln
  let output ← readOutput settings.output.shown
  let source ← backend.connect (jobOf settings).opening
  let environment :=
    { environment with outputFile := fun _ => output, connect := fun _ => source }
  finish (report environment texts)
where
  surroundings (token : Json) : Environment :=
    { token
      settingsFile := fun path => .error ⟨.missing, path⟩
      outputFile := fun path => .error (.file ⟨.missing, path⟩)
      limits := backend.limits
      engine := backend.engine
      connect := fun _ => .error .interrupted
      halt? := fun _ => none
      unclosed? := none }

end CommandLine
end MethodHistory

def main (texts : List String) : IO UInt32 :=
  MethodHistory.CommandLine.run .offline texts
