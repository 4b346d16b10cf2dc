import VMForge.Base.Json
import VMForge.Base.Run
import VMForge.Core.State

namespace VMForge.Engine.Qmp

open VMForge.Core

-- serde_json: the parser, and how a value prints.
structure Serde where
  fromStr : String → Except String Json
  display : Json → String

-- `Value::get`
def member (v : Json) (key : String) : Option Json :=
  match v with
  | .obj fields => Json.get (Json.dict fields) key
  | _ => none

-- A message of QEMU, which stands on a line of its own.
structure Message (serde : Serde) where
  text : List Char
  value : Json
  oneLine : '\n' ∉ text
  parsed : serde.fromStr (String.ofList (text ++ ['\r', '\n'])) = .ok value

-- An asynchronous event.
structure Event (serde : Serde) extends Message serde where
  noReturn : member value "return" = none
  noError : member value "error" = none

-- The reply to a command.
structure Reply (serde : Serde) extends Message serde where
  answers : member value "return" ≠ none ∨ member value "error" ≠ none

inductive Sent (serde : Serde) where
  | event (e : Event serde)
  | reply (r : Reply serde)

-- One connection to QEMU: what is left of the line that the client has begun to read, the lines
-- behind it that QEMU has written, and the commands and replies so far. QEMU answers in order.
structure Connection (serde : Serde) where
  rest : List Char
  queue : List (Sent serde)
  commands : List Json
  replies : List (Reply serde)
  closed : Bool

-- What happens while the client waits: a byte arrives (or the end of the stream), QEMU reports an
-- event or answers the oldest command, a read fails or times out, QEMU closes the connection.
inductive Happening (serde : Serde) where
  | arrives
  | event (e : Event serde)
  | answer (r : Reply serde)
  | failed (why : String)
  | closes

variable {serde : Serde}

def Message.line (m : Message serde) : List Char := m.text ++ ['\r', '\n']

namespace Sent

def message : Sent serde → Message serde
  | .event e => e.toMessage
  | .reply r => r.toMessage

def reply? : Sent serde → Option (Reply serde)
  | .event _ => none
  | .reply r => some r

end Sent

namespace Connection

-- The next character of the stream.
def next (c : Connection serde) : Option (Char × Connection serde) :=
  match c.rest, c.queue with
  | ch :: rest, _ => some (ch, { c with rest := rest })
  | [], m :: queue =>
      match m.message.line with
      | ch :: rest => some (ch, { c with rest := rest, queue := queue })
      | [] => none
  | [], [] => none

def write (c : Connection serde) (m : Sent serde) : Connection serde :=
  if c.closed then c else { c with queue := c.queue ++ [m] }

-- A reply to the oldest command without one.
def answer (c : Connection serde) (r : Reply serde) : Connection serde :=
  if c.closed = true ∨ c.commands.length ≤ c.replies.length then c
  else { c with queue := c.queue ++ [.reply r], replies := c.replies ++ [r] }

-- What QEMU does while the client reads nothing.
def idle (c : Connection serde) : Happening serde → Connection serde
  | .arrives => c
  | .event e => c.write (.event e)
  | .answer r => c.answer r
  | .failed _ => c
  | .closes => { c with closed := true }

end Connection

namespace QmpClient

variable (serde)

-- `BufRead::read_line`: what has been read of a line is lost when a read fails. A read that waits
-- for 30 seconds fails.
def readLine (line : List Char) : List (Happening serde) → Connection serde →
    Except HvError (List Char) × Connection serde × List (Happening serde)
  | [], c => (.error (.io "Resource temporarily unavailable (os error 11)"), c, [])
  | .failed why :: hs, c => (.error (.io why), c, hs)
  | .event e :: hs, c => readLine line hs (c.idle (.event e))
  | .answer r :: hs, c => readLine line hs (c.idle (.answer r))
  | .closes :: hs, c => readLine line hs (c.idle .closes)
  | .arrives :: hs, c =>
      match c.next with
      | some (ch, c') =>
          if ch = '\n' then (.ok (line ++ [ch]), c', hs) else readLine (line ++ [ch]) hs c'
      | none => if c.closed then (.ok line, c, hs) else readLine line hs c

def readMessage (hs : List (Happening serde)) (c : Connection serde) :
    Except HvError Json × Connection serde × List (Happening serde) :=
  match readLine serde [] hs c with
  | (.error e, c', hs') => (.error e, c', hs')
  | (.ok line, c', hs') =>
      if line = [] then (.error (.engine "QMP connection closed by QEMU"), c', hs')
      else
        match serde.fromStr (String.ofList line) with
        | .ok v => (.ok v, c', hs')
        | .error e =>
            (.error (.engine s!"invalid QMP message '{String.ofList line}': {e}"), c', hs')

-- The loop of `execute`. A message takes up at least one happening, so it never runs out of fuel.
def awaitReply (command : String) : Nat → List (Happening serde) → Connection serde →
    Except HvError Json × Connection serde
  | 0, _, c => (.error (.io "Resource temporarily unavailable (os error 11)"), c)
  | fuel + 1, hs, c =>
      match readMessage serde hs c with
      | (.error e, c', _) => (.error e, c')
      | (.ok reply, c', hs') =>
          match member reply "return" with
          | some ret => (.ok ret, c')
          | none =>
              match member reply "error" with
              | some err =>
                  (.error (.engine s!"QMP command '{command}' failed: {serde.display err}"), c')
              -- an asynchronous event
              | none => awaitReply command fuel hs' c'

def request (command : String) (arguments : Option Json) : Json :=
  .obj (("execute", .str command) :: arguments.toList.map fun args => ("arguments", args))

def execute (command : String) (arguments : Option Json) (hs : List (Happening serde))
    (c : Connection serde) : Except HvError Json × Connection serde :=
  awaitReply serde command (hs.length + 1) hs
    { c with commands := c.commands ++ [request command arguments] }

-- The greeting, and the negotiation of capabilities.
def connect (hs hs' : List (Happening serde)) (c : Connection serde) :
    Except HvError Unit × Connection serde :=
  match readMessage serde hs c with
  | (.error e, c', _) => (.error e, c')
  | (.ok greeting, c', _) =>
      match member greeting "QMP" with
      | none => (.error (.engine s!"unexpected QMP greeting: {serde.display greeting}"), c')
      | some _ =>
          match execute serde "qmp_capabilities" none hs' c' with
          | (.error e, c'') => (.error e, c'')
          | (.ok _, c'') => (.ok (), c'')

end QmpClient

-- What happens on a connection: a call, or something QEMU does between two calls.
inductive Turn (serde : Serde) where
  | execute (command : String) (arguments : Option Json) (hs : List (Happening serde))
  | idle (h : Happening serde)

def turn (serde : Serde) (c : Connection serde) : Turn serde → Connection serde
  | .execute command arguments hs => (QmpClient.execute serde command arguments hs c).2
  | .idle h => c.idle h

end VMForge.Engine.Qmp
