import VMForge.Guest.Agent

namespace VMForge.Guest

open JsonText

-- An exception that is no `AgentError`.
inductive Fault where
  | value (message : Message)
  | other (message : Message)

def Fault.raised : Fault → Raised
  | .value message => .valueError message
  | .other message => .other message

-- How `subprocess.run` ends.
inductive Run where
  | finished (returncode : Int) (stdout stderr : Bytes)
  | fileNotFound
  | timeoutExpired
  | osError (message : Message)
  | fault (f : Fault)

-- What an agent tells of its guest.
structure Facts where
  os : Message
  kernel : Message
  arch : Message

-- What the commands use of Python and of the guest: `%s`, the comparisons of a float with 0 and
-- with `EXEC_MAX_TIMEOUT`, base64, the text of a `UnicodeEncodeError`, the addresses that `ip`
-- prints, the clock, and processes.
structure System (φ γ : Type) extends Python φ where
  repr : Value φ → String
  str : Value φ → Message
  isNaN : φ → Bool
  nonPositive : φ → Bool
  tooLong : φ → Bool
  execDefaultTimeout : φ
  b64decode : PyStr → Option Bytes
  b64encode : Bytes → String
  encodeError : PyStr → Message
  facts : γ → Except Fault Facts
  hostname : γ → Message
  time : γ → φ
  contractInterfaces : γ → Except Fault (Doc φ)
  legacyInterfaces : γ → Except Fault (Doc φ)
  primaryIps : γ → Except Fault (Doc φ)
  popen : String → γ → Except Fault Unit × γ
  run : List PyStr → Bytes → Value φ → Option PyStr → γ → Run × γ

def agentVersion : String := "1.1.0"

def execMaxOutput : Nat := 1024 * 1024

variable {φ γ : Type}

namespace Doc

def text (s : Message) : Doc φ := ⟨.str s.val, .str s.val s.property⟩

def flag (b : Bool) : Doc φ := ⟨.bool b, .bool b⟩

def texts (ss : List String) : Doc φ :=
  ⟨.arr (ss.map fun s => .str (.ofString s)), .arr _ (by
    intro v hv
    obtain ⟨s, -, rfl⟩ := List.mem_map.mp hv
    exact .str _ (PyStr.joined_ofString s))⟩

def record (fields : List (String × Doc φ)) (hkeys : (fields.map Prod.fst).Nodup) : Doc φ :=
  ⟨.obj (fields.map fun f => (.ofString f.1, f.2.val)), .obj _
    (by
      have hinj : Function.Injective PyStr.ofString := fun _ _ h => PyStr.ofString_inj.mp h
      have hmap : (fields.map fun f => (PyStr.ofString f.1, f.2.val)).map Prod.fst =
          (fields.map Prod.fst).map PyStr.ofString := by rw [List.map_map, List.map_map]; rfl
      rw [hmap]
      exact hkeys.map hinj)
    (by
      intro f hf
      obtain ⟨f', -, rfl⟩ := List.mem_map.mp hf
      exact PyStr.joined_ofString f'.1)
    (by
      intro f hf
      obtain ⟨f', -, rfl⟩ := List.mem_map.mp hf
      exact f'.2.property)⟩

end Doc

def commandNames : List String :=
  ["ping", "info", "interfaces", "net-info", "shutdown", "exec", "guest-ping", "guest-info",
    "guest-get-host-info", "guest-network-get-interfaces", "guest-shutdown"]

-- `sorted(COMMANDS)`
def supportedCommands : List String := commandNames.mergeSort fun a b => decide (a ≤ b)

def agentError {α : Type} (code : String) (message : Message) : Except Raised α :=
  .error (.agentError code message)

-- A message with a text in front of it and one behind it.
def around (front : String) (message : Message) (back : String) : Message :=
  ⟨.ofString front ++ message.val ++ .ofString back, message.property.between front back⟩

-- `type(v).__name__`
def typeName : Value φ → String
  | .null => "NoneType"
  | .bool _ => "bool"
  | .int _ => "int"
  | .float _ => "float"
  | .str _ => "str"
  | .arr _ => "list"
  | .obj _ => "dict"

section Shutdown

variable (S : System φ γ)

def shutdownMode (args : List (PyStr × Value φ)) : Value φ :=
  (member args "mode").getD (.str "powerdown")

def shutdownActions : List (String × String) :=
  [("powerdown", "poweroff"), ("halt", "halt"), ("reboot", "reboot")]

-- `actions[mode]`, with the mode itself.
def shutdownAction (mode : PyStr) : Option (String × String) :=
  shutdownActions.find? fun action => mode == action.1

-- The checks of `cmd_shutdown`, and the mode that it carries out.
def shutDown (args : Value φ) (g : γ) : Except Raised String × γ :=
  match args with
  | .obj fields =>
      let mode := shutdownMode fields
      let unsupported := agentError "invalid_args" (around "unsupported shutdown mode: " (S.str mode) "")
      match mode with
      | .arr _ => (.error (.other "unhashable type: 'list'"), g)
      | .obj _ => (.error (.other "unhashable type: 'dict'"), g)
      | .str m =>
          match shutdownAction m with
          | none => (unsupported, g)
          | some (name, action) =>
              match S.popen ("sleep 1 && exec " ++ action) g with
              | (.ok (), g') => (.ok name, g')
              | (.error f, g') => (.error f.raised, g')
      | _ => (unsupported, g)
  | v => (.error (.other ("'" ++ typeName v ++ "' object has no attribute 'get'")), g)

def cmdShutdown (args : Value φ) (g : γ) : Except Raised (Doc φ) × γ :=
  let (r, g') := shutDown S args g
  (r.map fun _ => Doc.record [] List.nodup_nil, g')

def guestShutdown (args : Value φ) (g : γ) : Except Raised (Doc φ) × γ :=
  let (r, g') := shutDown S args g
  (r.map fun mode : String => Doc.record [("mode", Doc.text mode)] (by simp), g')

end Shutdown

section Exec

variable (S : System φ γ)

-- A list of strings.
def strings : List (Value φ) → Option (List PyStr)
  | [] => some []
  | .str s :: vs => (strings vs).map (s :: ·)
  | _ => none

-- `argv`, if it is a non-empty list of strings.
def execArgv (args : List (PyStr × Value φ)) : Option (List PyStr) :=
  match get args "argv" with
  | .arr items => (strings items).filter (· ≠ [])
  | _ => none

def execTimeout (args : List (PyStr × Value φ)) : Value φ :=
  (member args "timeout").getD (.float S.execDefaultTimeout)

-- A `bool` is an `int`.
def badTimeout : Value φ → Bool
  | .bool b => !b
  | .int i => i ≤ 0 || 300 < i
  | .float x => S.nonPositive x || S.tooLong x
  | _ => true

def execStdin (args : List (PyStr × Value φ)) : Option Bytes :=
  match member args "stdin" with
  | none => some []
  | some (.str s) => S.b64decode s
  | some _ => none

-- `os.fsencode` in UTF-8: of the surrogates it has bytes for those of `surrogateescape`.
def encodable (s : PyStr) : Bool :=
  s.codes.all fun p => p < 0xD800 || 0xDFFF < p || 0xDC80 ≤ p && p < 0xDD00

-- `PyUnicode_FSConverter`
def fsConvert (s : PyStr) : Except Fault Unit :=
  if !encodable s then .error (.value (S.encodeError s))
  else if s.codes.contains 0 then .error (.value "embedded null byte")
  else .ok ()

-- What `Popen` makes of its arguments before it forks.
def popenCwd (argv : List PyStr) (cwd : Value φ) : Except Fault (Option PyStr) := do
  argv.forM (fsConvert S)
  match cwd with
  | .null => .ok none
  | .str s => (fsConvert S s).map fun _ => some s
  | v => .error (.other ("expected str, bytes or os.PathLike object, not " ++ typeName v))

def clamp (data : Bytes) : Bytes × Bool := (data.take execMaxOutput, execMaxOutput < data.length)

def execResult (returncode : Int) (stdout stderr : Bytes) : Doc φ :=
  Doc.record
    [("exit_code", ⟨.int returncode, .int returncode⟩),
      ("stdout", Doc.text (S.b64encode (clamp stdout).1)),
      ("stderr", Doc.text (S.b64encode (clamp stderr).1)),
      ("stdout_truncated", Doc.flag (clamp stdout).2),
      ("stderr_truncated", Doc.flag (clamp stderr).2)] (by simp)

def cmdExec (args : Value φ) (g : γ) : Except Raised (Doc φ) × γ :=
  match args with
  | .obj fields =>
      match execArgv fields with
      | none => (agentError "invalid_args" "exec requires argv: non-empty list of strings", g)
      | some argv =>
          let timeout := execTimeout S fields
          if badTimeout S timeout = true then
            (agentError "invalid_args" "timeout must be in (0, 300] seconds", g)
          else
            match execStdin S fields with
            | none => (agentError "invalid_args" "stdin must be base64", g)
            | some stdin =>
                match popenCwd S argv (get fields "cwd") with
                | .error f => (.error f.raised, g)
                | .ok cwd =>
                    match S.run argv stdin timeout cwd g with
                    | (.finished returncode out err, g') => (.ok (execResult S returncode out err), g')
                    | (.fileNotFound, g') =>
                        (agentError "exec_not_found"
                          (around "no such executable: " (S.str (.str (argv.headD ""))) ""), g')
                    | (.timeoutExpired, g') =>
                        (agentError "exec_timeout"
                          (around "command exceeded " (S.str timeout) "s timeout"), g')
                    | (.osError message, g') => (agentError "exec_failed" message, g')
                    | (.fault f, g') => (.error f.raised, g')
  | v => (.error (.other ("'" ++ typeName v ++ "' object has no attribute 'get'")), g)

end Exec

section Table

variable (S : System φ γ)

def infoFields (x : Facts) (g : γ) : List (String × Doc φ) :=
  [("os", .text x.os), ("kernel", .text x.kernel), ("hostname", .text (S.hostname g)),
    ("agent_version", .text agentVersion), ("arch", .text x.arch),
    ("supported_commands", .texts supportedCommands)]

def cmdInfo (g : γ) : Except Fault (Doc φ) :=
  (S.facts g).map fun x => Doc.record (infoFields S x g) (by simp [infoFields])

def cmdNetInfo (g : γ) : Except Fault (Doc φ) :=
  (S.primaryIps g).map fun ips =>
    Doc.record [("hostname", .text (S.hostname g)), ("ips", ips)] (by simp)

def guestInfo : Doc φ :=
  Doc.record [("version", .text agentVersion), ("agent_version", .text agentVersion),
    ("supported_commands", .texts supportedCommands)] (by simp)

def guestGetHostInfo (g : γ) : Except Fault (Doc φ) :=
  (S.facts g).bind fun x =>
    (S.primaryIps g).map fun ips =>
      Doc.record (infoFields S x g ++ [("ip-addresses", ips), ("agent-version", .text agentVersion),
        ("time", ⟨.float (S.time g), .float _⟩)]) (by simp [infoFields])

def guestNetworkGetInterfaces (g : γ) : Except Fault (Doc φ) :=
  (S.legacyInterfaces g).map fun v => Doc.record [("interfaces", v)] (by simp)

-- A command that does not look at its arguments.
def told (f : γ → Except Fault (Doc φ)) : Value φ → γ → Except Raised (Doc φ) × γ :=
  fun _ g => ((f g).mapError Fault.raised, g)

-- `COMMANDS`
def commandTable : List (String × (Value φ → γ → Except Raised (Doc φ) × γ)) :=
  [("ping", told fun _ => .ok (Doc.record [] List.nodup_nil)),
    ("info", told (cmdInfo S)),
    ("interfaces", told S.contractInterfaces),
    ("net-info", told (cmdNetInfo S)),
    ("shutdown", cmdShutdown S),
    ("exec", cmdExec S),
    ("guest-ping", told fun _ => .ok (Doc.record [] List.nodup_nil)),
    ("guest-info", told fun _ => .ok guestInfo),
    ("guest-get-host-info", told (guestGetHostInfo S)),
    ("guest-network-get-interfaces", told (guestNetworkGetInterfaces S)),
    ("guest-shutdown", guestShutdown S)]

-- `COMMANDS.get(cmd)`
def command (name : PyStr) : Option (Value φ → γ → Except Raised (Doc φ) × γ) :=
  ((commandTable S).find? fun entry => name == entry.1).map Prod.snd

-- A guest with the commands of the agent.
def System.guest : Guest φ γ := { S.toPython with commands := command S, repr := S.repr }

end Table

end VMForge.Guest
