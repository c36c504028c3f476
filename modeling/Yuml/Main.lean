import Yuml.CommandLine.Run

namespace Yuml.CommandLine

def readSource (file : Option Text) : IO (Option Source.Buffer) := do
  try
    let bytes ← match file with
      | some name => IO.FS.readBinFile (String.ofList name)
      | none => (← IO.getStdin).readBinToEnd
    return some (.bytes bytes.toList)
  catch _ => return none

def faultOf : IO.Error → WriteFault
  | .permissionDenied .. => .denied
  | .inappropriateType _ code _ => if code = 20 then .notAFolder else .isFolder
  | _ => .noSuchFolder

def writeFile (file content : Text) : IO (Option Text) := do
  try
    IO.FS.writeFile (String.ofList file) (String.ofList content)
    return none
  catch e => return some ((faultOf e).line file)

def runCall (args : List Text) : IO UInt32 := do
  let setting ← IO.getEnv "YUML2SVG_LOG_LEVEL"
  let source ← match Request.ofArguments args with
    | some r => if r.help then pure none else readSource r.input
    | none => pure none
  let a := answer args (setting.map String.toList) fun _ => source
  let stderr ← IO.getStderr
  a.stderr.forM fun line => stderr.putStrLn (String.ofList line)
  IO.print (String.ofList a.stdout)
  match a.file with
  | none => return a.exit.toUInt32
  | some (file, content) =>
    match ← writeFile file content with
    | none => return a.exit.toUInt32
    | some line =>
      stderr.putStrLn (String.ofList line)
      return 1

end Yuml.CommandLine

def main (args : List String) : IO UInt32 :=
  Yuml.CommandLine.runCall (args.map String.toList)
