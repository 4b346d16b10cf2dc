import VMForge.Base.Slices
import VMForge.Cli.Redact.Schemes

namespace VMForge.Cli

open Text

section Code

-- The two rules with the bytes at which the code cuts its strings. None is a panic.
def redactKeyValueAt (line : List Char) : Option (List Char) :=
  match (charIndices 0 line).find? fun q => isSeparator q.2 with
  | none => some line
  | some (i, ch) => do
      let key ← sliceTo i line
      if isSensitive key = true then
        let before ← sliceTo i line
        return before ++ ch :: ' ' :: redacted
      else return line

-- The first keyword of the lower-cased copy: the byte where it starts, and its length.
def hitAt (rest : List Char) : Option (Nat × Nat) :=
  let found := keywords.filterMap fun s =>
    (findByte s.toList (lower rest)).map fun i => (i, s.utf8ByteSize)
  found.foldl (fun best h =>
    match best with
    | none => some h
    | some b => if h.1 < b.1 ∨ h.1 = b.1 ∧ h.2 < b.2 then some h else some b) none

-- A turn of the loop returns the output, or goes on with an output and a rest.
inductive Turn where
  | done (out : List Char)
  | next (out rest : List Char)
  deriving DecidableEq

def authTurn (out rest : List Char) : Option Turn :=
  match hitAt rest with
  | some (i, kwLen) => do
      let valueStart := i + kwLen
      let value ← sliceFrom valueStart rest
      let valueEnd := ((findCharByte isWhitespace value).map (valueStart + ·)).getD (byteLen rest)
      let copied ← (if 8 ≤ valueEnd - valueStart then (sliceTo valueStart rest).map (· ++ redacted)
        else sliceTo valueEnd rest)
      let rest ← sliceFrom valueEnd rest
      return .next (out ++ copied) rest
  | none => some (.done (out ++ rest))

-- None is a panic, or a loop that has not come to its end.
def authTurns : Nat → List Char → List Char → Option (List Char)
  | 0, _, _ => none
  | fuel + 1, out, rest => do
      match ← authTurn out rest with
      | .done out => return out
      | .next out rest => authTurns fuel out rest

end Code

section Keys

theorem redactKeyValueAt_eq (line : List Char) : redactKeyValueAt line = some (redactKeyValue line) := by
  have hline : line.takeWhile (fun c => !isSeparator c) ++ line.dropWhile (fun c => !isSeparator c) = line :=
    List.takeWhile_append_dropWhile
  have hslice := sliceTo_append (line.takeWhile fun c => !isSeparator c)
    (line.dropWhile fun c => !isSeparator c)
  rw [hline] at hslice
  unfold redactKeyValueAt redactKeyValue
  rw [find_charIndices]
  cases hrest : line.dropWhile fun c => !isSeparator c with
  | nil => rfl
  | cons ch rest =>
      simp only [List.head?_cons, Option.map_some, Nat.zero_add, hslice, Option.bind_eq_bind,
        Option.bind_some]
      split
      · rfl
      · rfl

end Keys

section Hits

theorem take_lower (cs : List Char) (i : Nat) : byteLen ((lower cs).take i) = byteLen (cs.take i) := by
  have htake : (lower cs).take i = lower (cs.take i) := List.map_take.symm
  rw [htake, byteLen_lower]

-- The bytes of the lower-cased copy are those of the text itself.
theorem hitAt_eq (rest : List Char) :
    hitAt rest = (hit rest).map fun h => (byteLen (rest.take h.1), h.2) := by
  have hlen : (lower rest).length = rest.length := List.length_map ..
  rw [hit_eq]
  unfold hitAt
  simp only [keywords, List.filterMap_cons, List.filterMap_nil, findByte_eq, take_lower]
  cases hbearer : find "bearer ".toList (lower rest) <;> cases hbasic : find "basic ".toList (lower rest)
  · rfl
  · rfl
  · rfl
  · rename_i i j
    have hi := find_le hbearer
    have hj := find_le hbasic
    rw [hlen] at hi hj
    have hfirst : (byteLen (rest.take j) < byteLen (rest.take i) ∨
        byteLen (rest.take j) = byteLen (rest.take i) ∧ "basic ".utf8ByteSize < "bearer ".utf8ByteSize) ↔
        j < i ∨ j = i := by
      have hless : "basic ".utf8ByteSize < "bearer ".utf8ByteSize := by decide
      obtain hij | rfl | hij := Nat.lt_trichotomy i j
      · have hbytes := byteLen_take_lt hij (show j ≤ rest.length by omega)
        omega
      · exact ⟨fun _ => Or.inr rfl, fun _ => Or.inr ⟨rfl, hless⟩⟩
      · exact ⟨fun _ => Or.inl hij, fun _ => Or.inl (byteLen_take_lt hij (by omega))⟩
    simp only [Option.map_some, List.foldl_cons, List.foldl_nil, hfirst]
    split
    · rfl
    · rfl

theorem keywordAt_hit {rest : List Char} {i n : Nat} (h : hit rest = some (i, n)) :
    keywordAt (rest.drop i) = some n := by
  induction rest generalizing i with
  | nil =>
      rw [hit_nil] at h
      cases h
  | cons c cs ih =>
      rw [hit_cons] at h
      cases hkey : keywordAt (c :: cs) with
      | some m =>
          rw [hkey] at h
          cases h
          exact hkey
      | none =>
          rw [hkey] at h
          obtain ⟨⟨j, m⟩, hj, he⟩ := Option.map_eq_some_iff.mp h
          cases he
          exact ih hj

-- A keyword has a byte for each of its letters.
theorem byteLen_hit {rest : List Char} {i n : Nat} (h : hit rest = some (i, n)) :
    byteLen (rest.take (i + n)) = byteLen (rest.take i) + n := by
  have hkey := keywordAt_hit h
  have hword : byteLen ((rest.drop i).take n) = n := by
    obtain ⟨hlower, rfl⟩ | ⟨hlower, rfl⟩ := keywordAt_lower hkey
    · rw [← byteLen_lower, hlower]
      decide
    · rw [← byteLen_lower, hlower]
      decide
  rw [List.take_add, byteLen_append, hword]

end Hits

section Turns

-- What a turn of the loop does, said without bytes.
theorem authTurn_none {rest : List Char} (h : hit rest = none) (out : List Char) :
    authTurn out rest = some (.done (out ++ rest)) := by
  unfold authTurn
  rw [hitAt_eq, h]
  rfl

theorem authTurn_some {rest : List Char} {i n : Nat} (h : hit rest = some (i, n)) (out : List Char) :
    authTurn out rest = some (.next (out ++ (rest.take (i + n) ++
      masked ((rest.drop (i + n)).takeWhile visible))) ((rest.drop (i + n)).dropWhile visible)) := by
  obtain ⟨front, hfront⟩ : ∃ front, front = rest.take (i + n) := ⟨_, rfl⟩
  obtain ⟨value, hvalue⟩ : ∃ value, value = (rest.drop (i + n)).takeWhile visible := ⟨_, rfl⟩
  obtain ⟨back, hback⟩ : ∃ back, back = (rest.drop (i + n)).dropWhile visible := ⟨_, rfl⟩
  have hdrop : rest.drop (i + n) = value ++ back := by
    rw [hvalue, hback, List.takeWhile_append_dropWhile]
  have hrest : rest = front ++ (value ++ back) := by
    rw [hfront, ← hdrop, List.take_append_drop]
  have hstart : byteLen (rest.take i) + n = byteLen front := by
    rw [hfront, byteLen_hit h]
  have hspace : findCharByte isWhitespace (value ++ back) = back.head?.map fun _ => byteLen value := by
    unfold findCharByte
    rw [find_charIndices, ← hdrop]
    show ((((rest.drop (i + n)).dropWhile visible).head?.map fun c =>
      (0 + byteLen ((rest.drop (i + n)).takeWhile visible), c)).map Prod.fst) = _
    rw [← hback, ← hvalue, Option.map_map, Nat.zero_add]
    rfl
  have hend : ((findCharByte isWhitespace (value ++ back)).map (byteLen front + ·)).getD (byteLen rest) =
      byteLen (front ++ value) := by
    rw [hspace]
    cases back with
    | nil =>
        rw [hrest, List.append_nil]
        rfl
    | cons c back =>
        rw [byteLen_append]
        rfl
  have hvalueSlice := sliceFrom_append front (value ++ back)
  have hkept := sliceTo_append front (value ++ back)
  have hwhole := sliceTo_append (front ++ value) back
  have hbackSlice := sliceFrom_append (front ++ value) back
  rw [List.append_assoc, ← hrest] at hwhole hbackSlice
  rw [← hrest] at hvalueSlice hkept
  have hsize : byteLen (front ++ value) - byteLen front = byteLen value := by
    rw [byteLen_append]
    omega
  unfold authTurn
  rw [hitAt_eq, h, ← hfront, ← hvalue, ← hback]
  simp only [Option.map_some, hstart, hvalueSlice, Option.bind_eq_bind, Option.bind_some, hend, hsize,
    hkept, hwhole, hbackSlice]
  unfold masked
  split
  · rfl
  · rfl

theorem authTurns_eq {fuel : Nat} {rest : List Char} (hfuel : rest.length < fuel) (out : List Char) :
    authTurns fuel out rest = some (out ++ redactAuthSchemes rest) := by
  induction fuel generalizing out rest with
  | zero => exact absurd hfuel (Nat.not_lt_zero _)
  | succ fuel ih =>
      unfold authTurns
      cases hhit : hit rest with
      | none =>
          rw [authTurn_none hhit, redactAuthSchemes_none hhit]
          rfl
      | some p =>
          obtain ⟨i, n⟩ := p
          obtain ⟨hn, hle⟩ := hit_le hhit
          have hshort := length_dropWhile_drop rest (show 0 < i + n by omega) hle
          have hrec := @ih ((rest.drop (i + n)).dropWhile visible) (by omega)
            (out ++ (rest.take (i + n) ++ masked ((rest.drop (i + n)).takeWhile visible)))
          rw [List.append_assoc out] at hrec
          rw [authTurn_some hhit, redactAuthSchemes_hit hhit]
          exact hrec

end Turns

section Copied

-- A text and what is made of it: a character is kept in its place, or a value behind a keyword is replaced.
inductive Copied : List Char → List Char → Prop where
  | nil : Copied [] []
  | keep {text out : List Char} (c : Char) (h : Copied text out) : Copied (c :: text) (c :: out)
  | value {key value text out : List Char} (hkey : lower key ∈ keywords.map String.toList)
      (hlong : 8 ≤ byteLen value) (hvalue : ∀ c ∈ value, visible c = true) (h : Copied text out) :
      Copied (key ++ value ++ text) (key ++ redacted ++ out)

theorem Copied.append {text out : List Char} (kept : List Char) (h : Copied text out) :
    Copied (kept ++ text) (kept ++ out) := by
  induction kept with
  | nil => exact h
  | cons c kept ih => exact Copied.keep c ih

theorem Copied.refl (text : List Char) : Copied text text := by
  induction text with
  | nil => exact Copied.nil
  | cons c text ih => exact Copied.keep c ih

-- The value behind a keyword is replaced if it is long enough.
theorem Copied.masked {key value text out : List Char} (hkey : lower key ∈ keywords.map String.toList)
    (hvalue : ∀ c ∈ value, visible c = true) (h : Copied text out) :
    Copied (key ++ value ++ text) (key ++ Cli.masked value ++ out) := by
  unfold Cli.masked
  split
  · rename_i hlong
    exact Copied.value hkey hlong hvalue h
  · exact h.append (key ++ value)

theorem redactAuthSchemes_copied (line : List Char) : Copied line (redactAuthSchemes line) := by
  obtain ⟨n, hn⟩ : ∃ n, n = line.length := ⟨_, rfl⟩
  induction n using Nat.strongRecOn generalizing line with
  | ind n ih =>
      cases hhit : hit line with
      | none =>
          rw [redactAuthSchemes_none hhit]
          exact Copied.refl line
      | some p =>
          obtain ⟨i, kwLen⟩ := p
          obtain ⟨hpos, hle⟩ := hit_le hhit
          have hshort := length_dropWhile_drop line (show 0 < i + kwLen by omega) hle
          have hrest := ih _ (by omega) ((line.drop (i + kwLen)).dropWhile visible) rfl
          have hkey : lower ((line.drop i).take kwLen) ∈ keywords.map String.toList := by
            obtain ⟨hlower, -⟩ | ⟨hlower, -⟩ := keywordAt_lower (keywordAt_hit hhit)
            · rw [hlower]
              decide
            · rw [hlower]
              decide
          have hvalue : ∀ c ∈ (line.drop (i + kwLen)).takeWhile visible, visible c = true := fun c hc =>
            List.mem_takeWhile_imp hc
          have hcopied := (Copied.masked hkey hvalue hrest).append (line.take i)
          have hline : line.take i ++ ((line.drop i).take kwLen ++
              (line.drop (i + kwLen)).takeWhile visible ++ (line.drop (i + kwLen)).dropWhile visible) =
              line := by
            rw [List.append_assoc, List.takeWhile_append_dropWhile, ← List.append_assoc, ← List.take_add,
              List.take_append_drop]
          rw [hline] at hcopied
          rwa [redactAuthSchemes_hit hhit, List.take_add, List.append_assoc, List.append_assoc,
            ← List.append_assoc (List.take kwLen (List.drop i line))]

-- No slice panics, the loop comes to its end whatever fuel it is given beyond its measure, and what
-- it does not replace stays as it is.
theorem redaction_safe (line : List Char) :
    redactKeyValueAt line = some (redactKeyValue line) ∧
      (∀ extra, authTurns (line.length + 1 + extra) [] line = some (redactAuthSchemes line)) ∧
      Copied line (redactAuthSchemes line) :=
  ⟨redactKeyValueAt_eq line, fun extra => authTurns_eq (by omega) [], redactAuthSchemes_copied line⟩

end Copied

end VMForge.Cli
