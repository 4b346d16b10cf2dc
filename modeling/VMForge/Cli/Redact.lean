import VMForge.Base.Text

namespace VMForge.Cli

open Text

def redacted : List Char := "[REDACTED]".toList

def sensitiveKeys : List String :=
  ["password", "passwd", "passphrase", "secret", "token", "api_key", "apikey", "api-key",
    "private_key", "private-key", "privatekey", "access_key", "access-key", "accesskey",
    "credential", "authorization", "auth_header", "cookie", "session_id", "session-id",
    "client_secret", "signing_key"]

def isSeparator (c : Char) : Bool := c == '=' || c == ':'

def endsWord (c : Char) : Bool := isWhitespace c || c == ',' || c == '{'

section Keys

-- The last word of what stands before a separator.
def lastWord (before : List Char) : List Char :=
  lastPiece endsWord (trimMatches (· == '\'') (trimMatches (· == '"') (trim (lower before))))

def isSensitive (before : List Char) : Bool :=
  sensitiveKeys.any fun k => contains (lastWord before) k.toList

-- Rule 1: only the first separator of a line is looked at.
def redactKeyValue (line : List Char) : List Char :=
  let before := line.takeWhile fun c => !isSeparator c
  match line.dropWhile fun c => !isSeparator c with
  | [] => line
  | ch :: _ => if isSensitive before = true then before ++ ch :: ' ' :: redacted else line

end Keys

section Schemes

def keywords : List String := ["bearer ", "basic "]

-- The first keyword: where it starts, and its length.
def hit (rest : List Char) : Option (Nat × Nat) :=
  let found := keywords.filterMap fun s =>
    (find s.toList (lower rest)).map fun i => (i, s.length)
  found.foldl (fun best h =>
    match best with
    | none => some h
    | some b => if h.1 < b.1 ∨ h.1 = b.1 ∧ h.2 < b.2 then some h else some b) none

def visible (c : Char) : Bool := !isWhitespace c

-- Every turn takes up a keyword, so the loop never runs out of fuel.
def authLoop : Nat → List Char → List Char
  | 0, rest => rest
  | fuel + 1, rest =>
      match hit rest with
      | some (i, kwLen) =>
          let value := (rest.drop (i + kwLen)).takeWhile visible
          let rest' := (rest.drop (i + kwLen)).dropWhile visible
          if 8 ≤ byteLen value then rest.take (i + kwLen) ++ redacted ++ authLoop fuel rest'
          else rest.take (i + kwLen) ++ value ++ authLoop fuel rest'
      | none => rest

-- Rule 2.
def redactAuthSchemes (line : List Char) : List Char := authLoop (line.length + 1) line

end Schemes

section Tokens

def isTokenChar (c : Char) : Bool := c.isAlphanum || c ∈ ['+', '/', '_', '-']

def core (word : List Char) : List Char := trimMatches (fun c => !c.isAlphanum) word

def isTokenish (word : List Char) : Bool :=
  40 ≤ byteLen (core word) && (core word).all isTokenChar && (core word).any Char.isDigit &&
    (core word).any Char.isAlpha

def redactWord (word : List Char) : List Char :=
  if isTokenish word = true then replace (core word) redacted word.length word else word

-- Rule 4.
def redactLongTokens (line : List Char) : List Char :=
  [' '].intercalate ((line.splitOn ' ').map redactWord)

end Tokens

def redactLine (line : List Char) : List Char :=
  redactLongTokens (redactAuthSchemes (redactKeyValue line))

-- What becomes of every line; the lines of a PEM block after its first are dropped.
def redactLines : Bool → List (List Char) → List (Option (List Char))
  | _, [] => []
  | true, line :: rest =>
      none :: redactLines (!"-----END".toList.isPrefixOf (trim line)) rest
  | false, line :: rest =>
      if "-----BEGIN".toList.isPrefixOf (trim line) = true then
        some (redacted ++ " (PEM block removed)".toList) :: redactLines true rest
      else some (redactLine line) :: redactLines false rest

def redactText (text : List Char) : List Char :=
  (redactLines false (lines text)).flatMap fun
    | none => []
    | some line => line ++ ['\n']

end VMForge.Cli
