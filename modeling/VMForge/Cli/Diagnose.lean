import VMForge.Base.TextLines
import VMForge.Cli.Redact

namespace VMForge.Cli

open Text

section Logs

def logTailLines : Nat := 200

def logTailBytes : Nat := 256 * 1024

-- The last lines of a file, from what is read of its end. A file whose end is no text is left out.
def tailFile (content : List UInt8) : Option (List Char) := do
  let buf ← Utf8.decode (content.drop (content.length - logTailBytes))
  let ls := lines buf
  return ['\n'].intercalate (ls.drop (ls.length - logTailLines)) ++ ['\n']

theorem tailFile_none {content : List UInt8}
    (h : Utf8.decode (content.drop (content.length - logTailBytes)) = none) :
    tailFile content = none := by
  unfold tailFile
  rw [h]
  rfl

-- What `collect_logs` keeps of one file.
def excerpt (content : List UInt8) : Option (List Char) := (tailFile content).map redactText

end Logs

end VMForge.Cli
