import VMForge.Base.Decimal
import Mathlib.Data.List.Nodup
import Mathlib.Data.List.Chain

namespace VMForge.JsonText

-- Characters stand for their code points.
scoped instance coePoint : Coe Char Nat := ⟨Char.toNat⟩

-- The code points of a text.
def points (s : String) : List Nat := s.toList.map Char.toNat

def isHigh (p : Nat) : Bool := 0xD800 ≤ p && p < 0xDC00

def isLow (p : Nat) : Bool := 0xDC00 ≤ p && p < 0xE000

-- A Python string. It may hold surrogates.
structure PyStr where
  codes : List Nat
deriving DecidableEq

def PyStr.ofString (s : String) : PyStr := ⟨points s⟩

scoped instance coePyStr : Coe String PyStr := ⟨PyStr.ofString⟩

namespace PyStr

-- Code points in which no two surrogates make up a character, which JSON would take them for.
def Joined (s : PyStr) : Prop :=
  (∀ p ∈ s.codes, p < 0x110000) ∧ s.codes.IsChain fun p q => ¬(isHigh p = true ∧ isLow q = true)

instance : Append PyStr := ⟨fun s t => ⟨s.codes ++ t.codes⟩⟩

-- A text has no surrogates.
theorem char_codes {s : String} {p : Nat} (hp : p ∈ (ofString s).codes) :
    p < 0x110000 ∧ isHigh p = false ∧ isLow p = false := by
  obtain ⟨c, -, rfl⟩ := List.mem_map.mp hp
  have hvalid : c.toNat < 0xD800 ∨ 0xDFFF < c.toNat ∧ c.toNat < 0x110000 := c.valid
  simp only [isHigh, isLow, Bool.and_eq_false_iff, decide_eq_false_iff_not]
  omega

theorem joined_ofString (s : String) : (ofString s).Joined := by
  refine ⟨fun p hp => (char_codes hp).1, ?_⟩
  rw [List.isChain_iff_getElem]
  rintro i hi ⟨-, hlow⟩
  rw [(char_codes (List.getElem_mem hi)).2.2] at hlow
  cases hlow

-- A text in front of a string, or behind it, makes up no character with it.
theorem Joined.between {t : PyStr} (ht : t.Joined) (front back : String) :
    (ofString front ++ t ++ ofString back).Joined := by
  have hcodes : (ofString front ++ t ++ ofString back).codes =
      (ofString front).codes ++ t.codes ++ (ofString back).codes := rfl
  obtain ⟨hbound, hchain⟩ := ht
  unfold Joined
  rw [hcodes]
  constructor
  · intro p hp
    rcases List.mem_append.mp hp with hp | hp
    · rcases List.mem_append.mp hp with hp | hp
      · exact (char_codes hp).1
      · exact hbound p hp
    · exact (char_codes hp).1
  · rw [List.isChain_append, List.isChain_append]
    refine ⟨⟨(joined_ofString front).2, hchain, ?_⟩, (joined_ofString back).2, ?_⟩
    · rintro p hp q - ⟨hhigh, -⟩
      rw [(char_codes (List.mem_of_getLast? hp)).2.1] at hhigh
      cases hhigh
    · rintro p - q hq ⟨-, hlow⟩
      rw [(char_codes (List.mem_of_head? hq)).2.2] at hlow
      cases hlow

theorem ofString_inj {s t : String} : ofString s = ofString t ↔ s = t := by
  refine ⟨fun h => ?_, fun h => by rw [h]⟩
  have hcodes : s.toList.map Char.toNat = t.toList.map Char.toNat := congrArg PyStr.codes h
  exact String.toList_inj.mp
    (List.map_injective_iff.mpr (fun c d hcd => Char.toNat_inj.mp hcd) hcodes)

end PyStr

-- A JSON document as Python's `json` module has it. The floats are those of `φ`.
inductive Value (φ : Type) where
  | null
  | bool (b : Bool)
  | int (i : Int)
  | float (x : φ)
  | str (s : PyStr)
  | arr (items : List (Value φ))
  | obj (fields : List (PyStr × Value φ))

-- `d[k] = v`
def put {κ α : Type} [DecidableEq κ] : List (κ × α) → κ → α → List (κ × α)
  | [], k, v => [(k, v)]
  | (k', v') :: rest, k, v => if k' = k then (k, v) :: rest else (k', v') :: put rest k v

-- The dictionary of the members of an object: a later member replaces an earlier one of its name.
def dict {κ α : Type} [DecidableEq κ] (members : List (κ × α)) : List (κ × α) :=
  members.foldl (fun d m => put d m.1 m.2) []

-- `sys.get_int_max_str_digits()`, and how deep arrays and objects may stand in each other in a text
-- that is read and in one that is written, until the interpreter raises `RecursionError`.
structure Limits where
  digits : Option Nat
  readDepth : Option Nat
  writeDepth : Option Nat

def Limits.none : Limits := ⟨.none, .none, .none⟩

-- `ValueError` (of which `JSONDecodeError` is one) and `RecursionError`.
inductive LoadError where
  | value
  | recursion
deriving DecidableEq

def isSpace (c : Nat) : Bool := c == ' ' || c == '\t' || c == '\n' || c == '\r'

def skipSpace (cs : List Nat) : List Nat := cs.dropWhile isSpace

-- What follows a word.
def strip (word cs : List Nat) : Option (List Nat) :=
  if word.isPrefixOf cs then some (cs.drop word.length) else none

section Strings

def hexDigit (d : Nat) : Nat := if d < 10 then 48 + d else 87 + d

def hexValue (c : Nat) : Option Nat :=
  if '0' ≤ c ∧ c ≤ '9' then some (c - 48)
  else if 'a' ≤ c ∧ c ≤ 'f' then some (c - 87)
  else if 'A' ≤ c ∧ c ≤ 'F' then some (c - 55)
  else none

def hex (n : Nat) : List Nat :=
  [hexDigit (n / 4096 % 16), hexDigit (n / 256 % 16), hexDigit (n / 16 % 16), hexDigit (n % 16)]

def unhex (a b c d : Nat) : Option Nat :=
  match hexValue a, hexValue b, hexValue c, hexValue d with
  | some a, some b, some c, some d => some (4096 * a + 256 * b + 16 * c + d)
  | _, _, _, _ => none

-- The escapes of `json.dumps` with `ensure_ascii`.
def escape (c : Nat) : List Nat :=
  if c = '"' then points "\\\""
  else if c = '\\' then points "\\\\"
  else if c = '\n' then points "\\n"
  else if c = '\r' then points "\\r"
  else if c = '\t' then points "\\t"
  else if c = '\x0c' then points "\\f"
  else if c = '\x08' then points "\\b"
  else if 32 ≤ c ∧ c ≤ 126 then [c]
  else if c < 0x10000 then points "\\u" ++ hex c
  else
    points "\\u" ++ hex (0xD800 + (c - 0x10000) / 1024) ++
      (points "\\u" ++ hex (0xDC00 + (c - 0x10000) % 1024))

def writeString (s : PyStr) : List Nat := points "\"" ++ (s.codes.flatMap escape ++ points "\"")

def unescape (c : Nat) : Option Nat :=
  if c = '"' ∨ c = '\\' ∨ c = '/' then some c
  else if c = 'b' then some 8
  else if c = 'f' then some 12
  else if c = 'n' then some 10
  else if c = 'r' then some 13
  else if c = 't' then some 9
  else none

-- What a string is made of: code points as they stand in the text, and the numbers of its escapes.
inductive Piece where
  | point (p : Nat)
  | escape (n : Nat)

-- A string after its opening quote.
def scanPieces : List Nat → Option (List Piece × List Nat)
  | [] => none
  | c :: rest =>
      if c = '"' then some ([], rest)
      else if c = '\\' then
        match rest with
        | [] => none
        | e :: rest =>
            if e = 'u' then
              match rest with
              | h₁ :: h₂ :: h₃ :: h₄ :: rest =>
                  match unhex h₁ h₂ h₃ h₄, scanPieces rest with
                  | some n, some (pieces, rest) => some (.escape n :: pieces, rest)
                  | _, _ => none
              | _ => none
            else
              match unescape e, scanPieces rest with
              | some n, some (pieces, rest) => some (.point n :: pieces, rest)
              | _, _ => none
      else if c < 32 then none
      else (scanPieces rest).map fun (pieces, rest) => (.point c :: pieces, rest)

-- Two escapes that make up a surrogate pair are one character. Any other surrogate is kept.
def join : List Piece → List Nat
  | [] => []
  | .point p :: pieces => p :: join pieces
  | [.escape n] => [n]
  | .escape n :: .point p :: pieces => n :: p :: join pieces
  | .escape n :: .escape m :: pieces =>
      if isHigh n && isLow m then (0x10000 + (n - 0xD800) * 1024 + (m - 0xDC00)) :: join pieces
      else n :: join (.escape m :: pieces)

def scanString (cs : List Nat) : Option (PyStr × List Nat) :=
  (scanPieces cs).map fun (pieces, rest) => (⟨join pieces⟩, rest)

end Strings

section Numbers

def isDigit (c : Nat) : Bool := 48 ≤ c && c ≤ 57

def writeInt : Int → List Nat
  | .ofNat n => (Nat.toDigits 10 n).map Char.toNat
  | .negSucc n => '-' :: (Nat.toDigits 10 (n + 1)).map Char.toNat

-- The digits at the start of a text: a zero stands alone.
def scanDigits : List Nat → List Nat
  | [] => []
  | c :: rest => if c = '0' then ['0'] else (c :: rest).takeWhile isDigit

-- `\.\d+`
def scanFraction : List Nat → List Nat
  | [] => []
  | c :: rest =>
      if c = '.' then if rest.takeWhile isDigit = [] then [] else c :: rest.takeWhile isDigit else []

-- `[eE][-+]?\d+`
def scanExponent : List Nat → List Nat
  | e :: s :: rest =>
      if e = 'e' ∨ e = 'E' then
        if s = '+' ∨ s = '-' then
          if rest.takeWhile isDigit = [] then [] else e :: s :: rest.takeWhile isDigit
        else if (s :: rest).takeWhile isDigit = [] then []
        else e :: (s :: rest).takeWhile isDigit
      else []
  | _ => []

-- A number: its sign, its digits, and what makes it a float.
def splitNumber (cs : List Nat) : List Nat × List Nat × List Nat × List Nat :=
  let sign := if cs.head? = some ('-' : Nat) then [('-' : Nat)] else []
  let cs := cs.drop sign.length
  let digits := scanDigits cs
  let cs := cs.drop digits.length
  let fraction := scanFraction cs
  let cs := cs.drop fraction.length
  let exponent := scanExponent cs
  (sign, digits, fraction ++ exponent, cs.drop exponent.length)

-- Nothing that would belong to a number.
def Ends (rest : List Nat) : Prop :=
  ∀ c, rest.head? = some c → isDigit c = false ∧ c ∉ points ".eE"

end Numbers

-- How floats are written and read: finite ones as numbers with a fraction or an exponent.
structure Floats (φ : Type) where
  write : φ → List Nat
  read : List Nat → φ
  read_write : ∀ x, read (write x) = x
  printed : ∀ x, ∀ c ∈ write x, 32 < c ∧ c < 127
  number : ∀ x, write x ∈ [points "NaN", points "Infinity", points "-Infinity"] ∨
    ∃ sign digits tail, write x = sign ++ digits ++ tail ∧ digits ≠ [] ∧ tail ≠ [] ∧
      ∀ rest, Ends rest → splitNumber (write x ++ rest) = (sign, digits, tail, rest)

variable {φ : Type} (F : Floats φ)

mutual

-- The text of `json.dumps`.
def dumps : Value φ → List Nat
  | .null => points "null"
  | .bool true => points "true"
  | .bool false => points "false"
  | .int i => writeInt i
  | .float x => F.write x
  | .str s => writeString s
  | .arr items => points "[" ++ (dumpsItems items ++ points "]")
  | .obj fields => points "\x7b" ++ (dumpsFields fields ++ points "\x7d")

def dumpsItems : List (Value φ) → List Nat
  | [] => []
  | [v] => dumps v
  | v :: w :: vs => dumps v ++ (points ", " ++ dumpsItems (w :: vs))

def dumpsFields : List (PyStr × Value φ) → List Nat
  | [] => []
  | [(k, v)] => writeString k ++ (points ": " ++ dumps v)
  | (k, v) :: f :: fs =>
      writeString k ++ (points ": " ++ (dumps v ++ (points ", " ++ dumpsFields (f :: fs))))

end

-- One level deeper: `none` if that is too deep. A limit of `none` is no limit.
def enter : Option Nat → Option (Option Nat)
  | none => some none
  | some 0 => none
  | some (room + 1) => some (some room)

-- Whether a number of digits is within the limit.
def fewDigits (limit : Option Nat) (count : Nat) : Bool := limit.all (count ≤ ·)

section Writing

variable (digits : Option Nat)

mutual

-- Whether `json.dumps` returns: neither an integer is too long for `int.__repr__` nor the document
-- too deep.
def fits : Option Nat → Value φ → Bool
  | _, .int i => fewDigits digits (Nat.toDigits 10 i.natAbs).length
  | room, .arr items =>
      match enter room with
      | none => false
      | some room => fitsItems room items
  | room, .obj fields =>
      match enter room with
      | none => false
      | some room => fitsFields room fields
  | _, _ => true

def fitsItems : Option Nat → List (Value φ) → Bool
  | _, [] => true
  | room, v :: vs => fits room v && fitsItems room vs

def fitsFields : Option Nat → List (PyStr × Value φ) → Bool
  | _, [] => true
  | room, (_, v) :: fs => fits room v && fitsFields room fs

end

end Writing

section Scanning

variable (digits : Option Nat)

def scanNumber (cs : List Nat) : Except LoadError (Value φ × List Nat) :=
  match splitNumber cs with
  | (sign, ds, tail, rest) =>
      if ds = [] then .error .value
      else if tail = [] then
        if fewDigits digits ds.length then
          let n : Int := Nat.ofDigitChars 10 (ds.map Char.ofNat) 0
          .ok (.int (if sign = [] then n else -n), rest)
        else .error .value
      else .ok (.float (F.read (sign ++ ds ++ tail)), rest)

def constants : List (List Nat × Value φ) :=
  [(points "null", .null), (points "true", .bool true), (points "false", .bool false)] ++
    [points "NaN", points "Infinity", points "-Infinity"].map fun w => (w, .float (F.read w))

def scanConstant (cs : List Nat) : Option (Value φ × List Nat) :=
  (constants F).findSome? fun (word, v) => (strip word cs).map fun rest => (v, rest)

mutual

-- The scanner of `json.loads`; every turn reads at least one character.
def scan : Nat → Option Nat → List Nat → Except LoadError (Value φ × List Nat)
  | 0, _, _ => .error .value
  | _ + 1, _, [] => .error .value
  | fuel + 1, room, c :: cs =>
      if c = '"' then
        match scanString cs with
        | none => .error .value
        | some (s, rest) => .ok (.str s, rest)
      else if c = '[' then
        match enter room with
        | none => .error .recursion
        | some room =>
            match skipSpace cs with
            | [] => .error .value
            | d :: rest =>
                if d = ']' then .ok (.arr [], rest)
                else (scanItems fuel room (d :: rest)).map fun (items, rest) => (.arr items, rest)
      else if c = '{' then
        match enter room with
        | none => .error .recursion
        | some room =>
            match skipSpace cs with
            | [] => .error .value
            | d :: rest =>
                if d = '}' then .ok (.obj [], rest)
                else
                  (scanFields fuel room (d :: rest)).map fun (fields, rest) =>
                    (.obj (dict fields), rest)
      else
        match scanConstant F (c :: cs) with
        | some r => .ok r
        | none => scanNumber F digits (c :: cs)

def scanItems : Nat → Option Nat → List Nat → Except LoadError (List (Value φ) × List Nat)
  | 0, _, _ => .error .value
  | fuel + 1, room, cs =>
      match scan fuel room cs with
      | .error e => .error e
      | .ok (v, rest) =>
          match skipSpace rest with
          | [] => .error .value
          | c :: rest =>
              if c = ']' then .ok ([v], rest)
              else if c = ',' then
                (scanItems fuel room (skipSpace rest)).map fun (vs, rest) => (v :: vs, rest)
              else .error .value

def scanFields : Nat → Option Nat → List Nat →
    Except LoadError (List (PyStr × Value φ) × List Nat)
  | 0, _, _ => .error .value
  | _ + 1, _, [] => .error .value
  | fuel + 1, room, q :: cs =>
      if q ≠ '"' then .error .value
      else
        match scanString cs with
        | none => .error .value
        | some (k, rest) =>
            match skipSpace rest with
            | [] => .error .value
            | c :: rest =>
                if c ≠ ':' then .error .value
                else
                  match scan fuel room (skipSpace rest) with
                  | .error e => .error e
                  | .ok (v, rest) =>
                      match skipSpace rest with
                      | [] => .error .value
                      | c :: rest =>
                          if c = '}' then .ok ([(k, v)], rest)
                          else if c = ',' then
                            (scanFields fuel room (skipSpace rest)).map fun (fs, rest) =>
                              ((k, v) :: fs, rest)
                          else .error .value

end

end Scanning

-- A document in which no object names a member twice, and no string is another one in JSON.
inductive Proper : Value φ → Prop where
  | null : Proper .null
  | bool (b : Bool) : Proper (.bool b)
  | int (i : Int) : Proper (.int i)
  | float (x : φ) : Proper (.float x)
  | str (s : PyStr) (h : s.Joined) : Proper (.str s)
  | arr (items : List (Value φ)) (h : ∀ v ∈ items, Proper v) : Proper (.arr items)
  | obj (fields : List (PyStr × Value φ)) (hkeys : (fields.map Prod.fst).Nodup)
      (hjoined : ∀ f ∈ fields, f.1.Joined) (h : ∀ f ∈ fields, Proper f.2) : Proper (.obj fields)

-- `json.loads` of a text.
def loads (limits : Limits) (cs : List Nat) : Except LoadError (Value φ) :=
  match scan F limits.digits (cs.length + 1) limits.readDepth (skipSpace cs) with
  | .error e => .error e
  | .ok (v, rest) => if skipSpace rest = [] then .ok v else .error .value

end VMForge.JsonText
