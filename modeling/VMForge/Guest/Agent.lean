import VMForge.Base.JsonText

namespace VMForge.Guest

open JsonText

abbrev Bytes := List UInt8

-- A string that JSON tells from others.
abbrev Message := { s : PyStr // s.Joined }

scoped instance coeMessage : Coe String Message := ⟨fun s => ⟨.ofString s, PyStr.joined_ofString s⟩⟩

-- What the host and the guest programs use of Python: its floats, its limits, the decoding of bytes
-- that are not plain ASCII (surrogates are let through), and the text of the exception that a line
-- raises which cannot be read.
structure Python (φ : Type) where
  floats : Floats φ
  limits : Limits
  isZero : φ → Bool
  equalsInt : φ → Int → Bool
  decodeOther : Bytes → Option (List Nat)
  why : Bytes → Message

-- A document that Python can hold and JSON tells from others: a dictionary has no key twice.
abbrev Doc (φ : Type) := { v : Value φ // Proper v }

inductive Raised where
  | agentError (code : String) (message : Message)
  | valueError (message : Message)
  | other (message : Message)

set_option linter.dupNamespace false in
-- The guest an agent runs in: what its commands do, and how `%r` prints a value.
structure Guest (φ γ : Type) extends Python φ where
  commands : PyStr → Option (Value φ → γ → Except Raised (Doc φ) × γ)
  repr : Value φ → String

section Bytes

-- `str.encode()` of a text in ASCII.
def encode (cs : List Nat) : Bytes := cs.map Nat.toUInt8

def isBlank (b : UInt8) : Bool := b == 32 || (9 ≤ b && b ≤ 13)

-- `bytes.strip()`
def strip (line : Bytes) : Bytes :=
  ((line.dropWhile isBlank).reverse.dropWhile isBlank).reverse

-- `buf.split(b"\n", 1)`
def cutLine : Bytes → Option (Bytes × Bytes)
  | [] => none
  | b :: bs => if b = 10 then some ([], bs) else (cutLine bs).map fun (line, rest) => (b :: line, rest)

end Bytes

variable {φ γ : Type}

namespace Python

def unlimited (P : Python φ) : Python φ := { P with limits := .none }

-- `s.decode(detect_encoding(s), 'surrogatepass')`
def decode (P : Python φ) (line : Bytes) : Option (List Nat) :=
  if line.all fun b => 0 < b && b < 128 then some (line.map UInt8.toNat) else P.decodeOther line

-- `json.loads` of bytes.
def loads (P : Python φ) (line : Bytes) : Except LoadError (Value φ) :=
  match P.decode line with
  | none => .error .value
  | some text => JsonText.loads P.floats P.limits text

-- The document that a line holds, however long its numbers and however deep it is.
def document (P : Python φ) (line : Bytes) : Option (Value φ) := (P.unlimited.loads line).toOption

-- Whether `json.dumps` returns.
def writes (P : Python φ) (v : Value φ) : Bool := fits P.limits.digits P.limits.writeDepth v

-- One document on a line of its own.
def frame (P : Python φ) (v : Value φ) : Bytes := encode (dumps P.floats v ++ points "\n")

end Python

set_option linter.dupNamespace false in
-- A guest whose Python has no limits.
def Guest.unlimited (G : Guest φ γ) : Guest φ γ := { G with limits := .none }

-- `bool(v)`
def Python.truthy (P : Python φ) : Value φ → Bool
  | .null => false
  | .bool b => b
  | .int i => i != 0
  | .float x => !P.isZero x
  | .str s => s != ""
  | .arr items => !items.isEmpty
  | .obj fields => !fields.isEmpty

section Handling

variable (G : Guest φ γ)

-- `d.get(k)`: a missing key gives no value.
def member (fields : List (PyStr × Value φ)) (k : String) : Option (Value φ) :=
  fields.lookup (.ofString k)

@[simp] theorem member_nil (k : String) : member ([] : List (PyStr × Value φ)) k = none := rfl

@[simp] theorem member_cons (k k' : String) (v : Value φ) (rest : List (PyStr × Value φ)) :
    member ((PyStr.ofString k', v) :: rest) k = if k = k' then some v else member rest k := by
  unfold member
  by_cases hk : k = k'
  · rw [if_pos hk, hk, List.lookup_cons_self]
  · have hne : (PyStr.ofString k == PyStr.ofString k') = false :=
      beq_false_of_ne fun h => hk (PyStr.ofString_inj.mp h)
    rw [if_neg hk, List.lookup_cons, hne]

-- `d.get(k)`, with `None` for a missing key.
def get (fields : List (PyStr × Value φ)) (k : String) : Value φ := (member fields k).getD .null

def handle (req : List (PyStr × Value φ)) (g : γ) : Except Raised (Doc φ) × γ :=
  let cmd := get req "execute"
  let args := if G.truthy (get req "arguments") then get req "arguments" else .obj []
  match cmd with
  | .arr _ => (.error (.other "unhashable type: 'list'"), g)
  | .obj _ => (.error (.other "unhashable type: 'dict'"), g)
  | .str s =>
      match G.commands s with
      | some fn => fn args g
      | none => (.error (.agentError "unknown_command" ("unknown command: " ++ G.repr cmd)), g)
  | _ => (.error (.agentError "unknown_command" ("unknown command: " ++ G.repr cmd)), g)

def errorBody (code : String) (message : Message) : Value φ :=
  .obj [("code", .str code), ("message", .str message.val), ("desc", .str message.val)]

def Raised.body : Raised → Value φ
  | .agentError code message => errorBody code message
  | .valueError message => errorBody "invalid_request" message
  | .other message => errorBody "internal_error" message

-- `resp`, with the id of the request if it has one.
def respond (rid : Value φ) : Except Raised (Doc φ) → Value φ
  | r =>
      let body : PyStr × Value φ := match r with
        | .ok v => ("return", v.val)
        | .error e => ("error", e.body)
      match rid with
      | .null => .obj [body]
      | _ => .obj [body, ("id", rid)]

-- One request line, one response.
def processLine (line : Bytes) (g : γ) : Value φ × γ :=
  match G.loads line with
  | .error .value => (respond .null (.error (.valueError (G.why line))), g)
  | .error .recursion => (respond .null (.error (.other (G.why line))), g)
  | .ok (.obj req) =>
      let (r, g') := handle G req g
      (respond (get req "id") r, g')
  | .ok _ =>
      (respond .null (.error (.agentError "invalid_request" "request must be a JSON object")), g)

end Handling

-- How a write to the port ends: all of it is accepted, or its first bytes, or it raises `OSError`.
inductive Accept where
  | whole
  | part (n : Nat)
  | fails

-- What the port does with each write.
abbrev Port := Nat → Accept

-- The agent between two reads: what it has read of an unfinished line, the guest, how often it has
-- written, what each write has put on the channel, and whether an exception has ended it.
structure Agent (γ : Type) where
  buf : Bytes
  guest : γ
  writes : Nat
  channel : List Bytes
  ended : Bool

section Serving

variable (G : Guest φ γ) (port : Port)

-- `while b"\n" in buf`. A failed write ends the loop, and a response that `json.dumps` refuses the
-- agent.
def serveLines : Nat → Agent γ → Agent γ
  | 0, a => a
  | fuel + 1, a =>
      match cutLine a.buf with
      | none => a
      | some (line, rest) =>
          if strip line = [] then serveLines fuel { a with buf := rest }
          else
            let (resp, g) := processLine G (strip line) a.guest
            if G.writes resp then
              let data := G.frame resp
              match port a.writes with
              | .fails => { a with buf := rest, guest := g, writes := a.writes + 1 }
              | .whole => serveLines fuel ⟨rest, g, a.writes + 1, a.channel ++ [data], a.ended⟩
              | .part n =>
                  serveLines fuel ⟨rest, g, a.writes + 1, a.channel ++ [data.take n], a.ended⟩
            else { a with buf := rest, guest := g, ended := true }

-- One `os.read`. Every line of the buffer takes up a byte, so the loop never runs out of fuel.
def receive (a : Agent γ) (chunk : Bytes) : Agent γ :=
  if a.ended then a
  else serveLines G port ((a.buf ++ chunk).length + 1) { a with buf := a.buf ++ chunk }

def serve (a : Agent γ) (chunks : List Bytes) : Agent γ := chunks.foldl (receive G port) a

-- An agent that has just opened its port.
def Agent.opened (g : γ) : Agent γ := ⟨[], g, 0, [], false⟩

end Serving

-- A guest that knows `ping`, and one float.
namespace Sample

theorem splitNumber_zero {rest : List Nat} (h : Ends rest) :
    splitNumber (points "0.0" ++ rest) = ([], points "0", points ".0", rest) := by
  have htake : (48 :: rest).takeWhile isDigit = [48] := by
    cases rest with
    | nil => rfl
    | cons c rest =>
        rw [List.takeWhile_cons_of_pos (by decide), List.takeWhile_cons_of_neg]
        rw [(h c rfl).1]
        exact Bool.false_ne_true
  have hexponent : scanExponent rest = [] := by
    cases rest with
    | nil => rfl
    | cons c rest =>
        have hexp := (h c rfl).2
        cases rest with
        | nil => rfl
        | cons d rest =>
            rw [scanExponent, if_neg]
            rintro (rfl | rfl)
            · exact hexp (by decide)
            · exact hexp (by decide)
  have hfraction : scanFraction (46 :: 48 :: rest) = [46, 48] := by
    rw [scanFraction, if_pos (by decide), htake]
    rfl
  have hzero : points "0.0" ++ rest = 48 :: 46 :: 48 :: rest := rfl
  have hdigits : scanDigits (48 :: 46 :: 48 :: rest) = [48] := rfl
  rw [hzero]
  simp only [splitNumber, List.head?_cons, Char.reduceToNat, Option.some.injEq, Nat.reduceEqDiff,
    if_false, List.length_nil, List.drop_zero, hdigits, List.drop_succ_cons, hfraction,
    List.length_cons, hexponent]
  rfl

def floats : Floats Unit where
  write _ := points "0.0"
  read _ := ()
  read_write _ := rfl
  printed _ := by decide
  number _ := Or.inr ⟨[], points "0", points ".0", rfl, by decide, by decide,
    fun _ h => splitNumber_zero h⟩

-- The limits of a Python as it is installed.
def limits : Limits := ⟨some 4300, some 990, some 990⟩

def guest : Guest Unit Unit where
  floats := floats
  limits := limits
  isZero _ := true
  equalsInt _ n := n == 0
  decodeOther _ := none
  why _ := "Expecting value: line 1 column 1 (char 0)"
  commands name :=
    if name = PyStr.ofString "ping" then
      some fun _ g => (.ok ⟨.obj [], .obj [] List.nodup_nil (by simp) (by simp)⟩, g)
    else none
  repr _ := "''"

end Sample

end VMForge.Guest
