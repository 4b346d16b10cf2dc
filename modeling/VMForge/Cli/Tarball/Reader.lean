import VMForge.Cli.Tarball.Header

namespace VMForge.Cli

section Reader

-- An entry as a reader of ustar archives finds it.
structure Entry where
  path : List Char
  contents : List UInt8
  mtime : Nat
  deriving DecidableEq

def slice (bytes : List UInt8) (start len : Nat) : List UInt8 := (bytes.drop start).take len

-- The digits of a number field; only NULs and spaces may follow them.
def readOctal (field : List UInt8) : Option Nat := do
  let text ← Utf8.decode field
  let digits := text.takeWhile (isDigitOf 8)
  let rest := text.dropWhile (isDigitOf 8)
  if digits ≠ [] ∧ rest.all (fun c => c == '\x00' || c == ' ') = true then
    some (Nat.ofDigitChars 8 digits 0)
  else none

-- The name ends at the first NUL of its field, or with the field.
def readPath (header : List UInt8) : Option (List Char) :=
  Utf8.decode ((slice header 0 100).takeWhile fun b => b != 0)

-- The sum over a header whose checksum field is read as spaces.
def headerSum (header : List UInt8) : Nat :=
  byteSum (header.take 148 ++ List.replicate 8 32 ++ header.drop 156)

def isHeader (header : List UInt8) : Prop :=
  header.length = block ∧ slice header 257 5 = ustar ∧
    readOctal (slice header 148 8) = some (headerSum header)

instance (header : List UInt8) : Decidable (isHeader header) :=
  inferInstanceAs (Decidable (_ ∧ _ ∧ _))

-- How many bytes the blocks of some contents take.
def stored (size : Nat) : Nat := (size + (block - 1)) / block * block

-- The entries up to the end marker, and what is behind it.
def readEntries : Nat → List UInt8 → Option (List Entry × List UInt8)
  | 0, _ => none
  | fuel + 1, archive =>
      if archive.take (2 * block) = zeros (2 * block) then some ([], archive.drop (2 * block))
      else if isHeader (archive.take block) then do
        let path ← readPath (archive.take block)
        let size ← readOctal (slice (archive.take block) 124 12)
        let mtime ← readOctal (slice (archive.take block) 136 12)
        let body := archive.drop block
        if stored size ≤ body.length then
          let (entries, left) ← readEntries fuel (body.drop (stored size))
          some (⟨path, body.take size, mtime⟩ :: entries, left)
        else none
      else none

-- Every entry has a block of its own.
def readArchive (archive : List UInt8) : Option (List Entry × List UInt8) :=
  readEntries (archive.length / block) archive

end Reader

section Numbers

-- A number that is followed by a NUL is read back.
theorem readOctal_octal (value width : Nat) {rest : List Char}
    (hrest : ∀ c ∈ rest, c = '\x00' ∨ c = ' ') :
    readOctal (octal value width ++ Utf8.encode rest) = some value := by
  have hdigits : ∀ c ∈ padded 8 width value, isDigitOf 8 c = true := fun c hc =>
    isDigitOf_of_mem_padded (by decide) (by decide) hc
  have hstop : rest.takeWhile (isDigitOf 8) = [] ∧ rest.dropWhile (isDigitOf 8) = rest := by
    cases rest with
    | nil => exact ⟨rfl, rfl⟩
    | cons c rest =>
        have hc : isDigitOf 8 c = false := by
          obtain rfl | rfl := hrest c List.mem_cons_self
          · decide
          · decide
        exact ⟨List.takeWhile_cons_of_neg (by rw [hc]; decide),
          List.dropWhile_cons_of_neg (by rw [hc]; decide)⟩
  have hall : rest.all (fun c => c == '\x00' || c == ' ') = true := by
    rw [List.all_eq_true]
    intro c hc
    rw [Bool.or_eq_true, beq_iff_eq, beq_iff_eq]
    exact hrest c hc
  unfold readOctal octal
  rw [← Utf8.encode_append, Utf8.decode_encode]
  simp only [Option.bind_eq_bind, Option.bind_some]
  rw [List.takeWhile_append_of_pos hdigits, List.dropWhile_append_of_pos hdigits, hstop.1, hstop.2,
    List.append_nil, if_pos ⟨padded_ne_nil width value, hall⟩,
    ofDigitChars_padded (by decide) (by decide)]

theorem readOctal_number (value width : Nat) : readOctal (number width value) = some value :=
  @readOctal_octal value width ['\x00'] (by decide)

end Numbers

section Headers

variable {h : Fields}

theorem slice_field (hfits : h.Fits) (i start len : Nat) {field : List UInt8}
    (hfield : h.pieces[i]? = some field) (hstart : (widths.take i).sum = start)
    (hlen : widths[i]? = some len) : slice h.bytes start len = field := by
  obtain ⟨hi, rfl⟩ := List.getElem?_eq_some_iff.mp hfield
  have hfront : (h.pieces.take i).flatten.length = start := by
    rw [List.length_flatten, List.map_take, hfits, hstart]
  have hwidth : (h.pieces[i]).length = len := by
    rw [← hfits, List.getElem?_map, hfield] at hlen
    exact Option.some.inj hlen
  have hbytes : h.bytes =
      (h.pieces.take i).flatten ++ (h.pieces[i] ++ (h.pieces.drop (i + 1)).flatten) := by
    rw [← List.flatten_cons, ← List.flatten_append, List.getElem_cons_drop, List.take_append_drop]
    rfl
  unfold slice
  rw [hbytes, List.drop_left' hfront, List.take_left' hwidth]

-- The sum that is read is the sum over the header before it had one.
theorem headerSum_eq (hfits : h.Fits) :
    headerSum h.bytes = byteSum { h with checksum := List.replicate 7 32, gap := [32] }.bytes := by
  have hfront : (h.lead ++ (h.checksum ++ h.gap)).length = 156 := by
    rw [List.length_append, hfits.lead, hfits.sum]
  have htake : h.bytes.take 148 = h.lead := by
    rw [bytes_eq, List.append_assoc]
    exact List.take_left' hfits.lead
  have hdrop : h.bytes.drop 156 = h.trail := by
    rw [bytes_eq]
    exact List.drop_left' hfront
  unfold headerSum
  rw [htake, hdrop, bytes_eq]
  rfl

theorem slice_checksum (hfits : h.Fits) : slice h.bytes 148 8 = h.checksum ++ h.gap := by
  unfold slice
  rw [bytes_eq, List.append_assoc, List.drop_left' hfits.lead, List.take_left' hfits.sum]

end Headers

section Signed

variable {path : List UInt8} {size mtime : Nat}

theorem signed_fits (hpath : path.length ≤ 100) (hsize : size < 8 ^ 11) (hmtime : mtime < 8 ^ 11) :
    (Fields.signed path size mtime).Fits := by
  have hfits := unsigned_fits hpath hsize hmtime
  have hwidth : widths[6]? = some (number 6 (byteSum (Fields.unsigned path size mtime).bytes)).length := by
    rw [length_number (by decide) (checksum_fits hfits)]
    rfl
  exact fits_set hfits 6 hwidth

theorem headerSum_signed (hfits : (Fields.signed path size mtime).Fits) :
    headerSum (Fields.signed path size mtime).bytes =
      byteSum (Fields.unsigned path size mtime).bytes := headerSum_eq hfits

-- The sum a header carries is its own.
theorem readOctal_checksum (hfits : (Fields.signed path size mtime).Fits) :
    readOctal (slice (Fields.signed path size mtime).bytes 148 8) =
      some (headerSum (Fields.signed path size mtime).bytes) := by
  have hbehind : Utf8.encode ['\x00', ' '] = [0] ++ [32] := by decide
  have hfield : (Fields.signed path size mtime).checksum ++ (Fields.signed path size mtime).gap =
      octal (byteSum (Fields.unsigned path size mtime).bytes) 6 ++ Utf8.encode ['\x00', ' '] := by
    rw [hbehind, ← List.append_assoc]
    rfl
  rw [slice_checksum hfits, headerSum_signed hfits, hfield, readOctal_octal _ _ (by decide)]

theorem isHeader_signed (hfits : (Fields.signed path size mtime).Fits) :
    isHeader (Fields.signed path size mtime).bytes :=
  ⟨hfits.length, slice_field hfits 10 257 5 rfl rfl rfl, readOctal_checksum hfits⟩

theorem readOctal_size (hfits : (Fields.signed path size mtime).Fits) :
    readOctal (slice (Fields.signed path size mtime).bytes 124 12) = some size := by
  have hfield : slice (Fields.signed path size mtime).bytes 124 12 = number 11 size :=
    slice_field hfits 4 124 12 rfl rfl rfl
  rw [hfield, readOctal_number]

theorem readOctal_mtime (hfits : (Fields.signed path size mtime).Fits) :
    readOctal (slice (Fields.signed path size mtime).bytes 136 12) = some mtime := by
  have hfield : slice (Fields.signed path size mtime).bytes 136 12 = number 11 mtime :=
    slice_field hfits 5 136 12 rfl rfl rfl
  rw [hfield, readOctal_number]

-- A name that takes up its whole field needs no NUL.
theorem readPath_signed {text : List Char} (hfits : (Fields.signed (Utf8.encode text) size mtime).Fits)
    (hnul : '\x00' ∉ text) : readPath (Fields.signed (Utf8.encode text) size mtime).bytes = some text := by
  have hbytes : ∀ b ∈ Utf8.encode text, (b != 0) = true := by
    intro b hb
    rw [bne_iff_ne]
    rintro rfl
    exact hnul (Utf8.mem_of_mem_encode (by decide) (by decide) hb)
  have hpad : (zeros (100 - (Utf8.encode text).length)).takeWhile (fun b => b != 0) = [] := by
    cases 100 - (Utf8.encode text).length with
    | zero => rfl
    | succ n => rfl
  have hfield : slice (Fields.signed (Utf8.encode text) size mtime).bytes 0 100 =
      nameField (Utf8.encode text) := slice_field hfits 0 0 100 rfl rfl rfl
  unfold readPath
  rw [hfield, nameField, List.takeWhile_append_of_pos hbytes, hpad, List.append_nil, Utf8.decode_encode]

end Signed

end VMForge.Cli
