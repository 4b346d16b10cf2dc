import VMForge.Cli.Tarball

namespace VMForge.Cli

section Pieces

variable {start stop : Nat} {f : List UInt8 → Option (List UInt8)}

-- What is done to a slice that is one piece of the header is done to that piece.
theorem onSlice_pieces (front : List (List UInt8)) (field : List UInt8) (back : List (List UInt8))
    (hstart : front.flatten.length = start) (hstop : start + field.length = stop) :
    onSlice (front ++ field :: back).flatten start stop f =
      (f field).map fun field' => (front ++ field' :: back).flatten := by
  have hsplit : ∀ piece, (front ++ piece :: back).flatten =
      (front.flatten ++ piece) ++ back.flatten := by
    intro piece
    rw [List.flatten_append, List.flatten_cons, List.append_assoc]
  have hlen : (front.flatten ++ field).length = stop := by
    rw [List.length_append]
    omega
  unfold onSlice
  rw [hsplit, if_pos (by rw [List.length_append]; omega), List.take_left' hlen, List.drop_left' hlen,
    List.drop_left' hstart, List.append_assoc, List.take_left' hstart]
  simp only [hsplit]
  cases f field with
  | none => rfl
  | some field' => rfl

theorem set_pieces (front : List (List UInt8)) (b b' : UInt8) (back : List (List UInt8))
    (hstart : front.flatten.length = start) :
    (front ++ [b] :: back).flatten.set start b' = (front ++ [b'] :: back).flatten := by
  rw [List.flatten_append, List.flatten_cons, List.flatten_append, List.flatten_cons,
    List.set_append_right _ _ (by omega), hstart, Nat.sub_self]
  rfl

end Pieces

section Numbers

theorem length_octal {value width : Nat} (hwidth : 0 < width) :
    (octal value width).length = width ↔ value < 8 ^ width := by
  unfold octal
  rw [Text.length_encode, Text.byteLen_of_ascii, length_padded_iff (by decide) hwidth]
  intro c hc
  have hcode := isDigitOf_code (isDigitOf_of_mem_padded (by decide) (by decide) hc)
  omega

def number (width value : Nat) : List UInt8 := octal value width ++ [0]

theorem length_number {width value : Nat} (hwidth : 0 < width) (hvalue : value < 8 ^ width) :
    (number width value).length = width + 1 := by
  unfold number
  rw [List.length_append, (length_octal hwidth).mpr hvalue]
  rfl

-- A number is written where it fits its digits. There is no other way to write one.
theorem writeOctalN_eq {field : List UInt8} {width : Nat} (value : Nat) (hwidth : 0 < width)
    (hfield : field.length = width + 1) :
    writeOctalN field value width = if value < 8 ^ width then some (number width value) else none := by
  unfold writeOctalN copyFromSlice
  by_cases hvalue : value < 8 ^ width
  · have hlen := (length_octal hwidth).mpr hvalue
    have hrest : (field.drop width).length = 1 := by
      rw [List.length_drop]
      omega
    obtain ⟨b, hb⟩ := List.length_eq_one_iff.mp hrest
    have htotal : width < (octal value width ++ [b]).length := by
      rw [List.length_append, hlen]
      exact Nat.lt_succ_self width
    rw [if_pos ⟨by omega, hlen⟩, if_pos hvalue, hb]
    simp only [Option.bind_eq_bind, Option.bind_some]
    rw [if_pos htotal, List.set_append_right _ _ (by omega), hlen, Nat.sub_self]
    rfl
  · rw [if_neg (fun h => hvalue ((length_octal hwidth).mp h.2)), if_neg hvalue]
    rfl

end Numbers

section Layout

def zeros (n : Nat) : List UInt8 := List.replicate n 0

@[simp] theorem length_zeros (n : Nat) : (zeros n).length = n := List.length_replicate ..

theorem zeros_append (m n : Nat) : zeros m ++ zeros n = zeros (m + n) :=
  List.replicate_append_replicate ..

-- A header as its fields lie in it. The fields that are never written to are zeros.
structure Fields where
  name : List UInt8
  mode : List UInt8
  uid : List UInt8
  gid : List UInt8
  size : List UInt8
  mtime : List UInt8
  checksum : List UInt8
  gap : List UInt8
  typeflag : List UInt8
  magic : List UInt8
  version : List UInt8

def Fields.pieces (h : Fields) : List (List UInt8) :=
  [h.name, h.mode, h.uid, h.gid, h.size, h.mtime, h.checksum, h.gap, h.typeflag, zeros 100, h.magic,
    zeros 1, h.version, zeros 247]

def Fields.bytes (h : Fields) : List UInt8 := h.pieces.flatten

def widths : List Nat := [100, 8, 8, 8, 12, 12, 7, 1, 1, 100, 5, 1, 2, 247]

def Fields.Fits (h : Fields) : Prop := h.pieces.map List.length = widths

theorem Fields.Fits.length {h : Fields} (hfits : h.Fits) : h.bytes.length = block := by
  unfold Fields.bytes
  rw [List.length_flatten, hfits]
  rfl

def Fields.empty : Fields where
  name := zeros 100
  mode := zeros 8
  uid := zeros 8
  gid := zeros 8
  size := zeros 12
  mtime := zeros 12
  checksum := zeros 7
  gap := zeros 1
  typeflag := zeros 1
  magic := zeros 5
  version := zeros 2

theorem empty_fits : Fields.empty.Fits := by
  unfold Fields.Fits Fields.pieces Fields.empty
  simp only [List.map_cons, List.map_nil, length_zeros]
  rfl

-- Before anything is written.
theorem named_bytes (name : List UInt8) :
    { Fields.empty with name := name }.bytes = name ++ zeros 412 := by
  unfold Fields.bytes Fields.pieces Fields.empty
  simp only [List.flatten_cons, List.flatten_nil, List.append_nil, zeros_append]

variable {pieces : List (List UInt8)} {start stop : Nat} {f : List UInt8 → Option (List UInt8)}

-- Where a field lies is said by the widths of those before it.
theorem onSlice_field (hfits : pieces.map List.length = widths) (i start stop : Nat)
    {field : List UInt8}
    (hfield : pieces[i]? = some field) (hstart : (widths.take i).sum = start)
    (hstop : widths[i]? = some (stop - start)) (hle : start ≤ stop) :
    onSlice pieces.flatten start stop f = (f field).map fun field' => (pieces.set i field').flatten := by
  obtain ⟨hi, rfl⟩ := List.getElem?_eq_some_iff.mp hfield
  have hfront : (pieces.take i).flatten.length = start := by
    rw [List.length_flatten, List.map_take, hfits, hstart]
  have hwidth : pieces[i].length = stop - start := by
    rw [← hfits, List.getElem?_map, hfield] at hstop
    exact Option.some.inj hstop
  have hset : ∀ field, pieces.set i field = pieces.take i ++ field :: pieces.drop (i + 1) :=
    fun field => List.set_eq_take_cons_drop field hi
  have hpieces : pieces.take i ++ pieces[i] :: pieces.drop (i + 1) = pieces := by
    rw [← hset, List.set_getElem_self]
  have hpiece := @onSlice_pieces _ stop f (pieces.take i) pieces[i] (pieces.drop (i + 1)) hfront
    (by omega)
  rw [hpieces] at hpiece
  simp only [hset]
  exact hpiece

theorem fits_set (hfits : pieces.map List.length = widths) (i : Nat) {field : List UInt8}
    (hfield : widths[i]? = some field.length) : (pieces.set i field).map List.length = widths := by
  obtain ⟨hi, hwidth⟩ := List.getElem?_eq_some_iff.mp hfield
  rw [List.map_set, hfits, ← hwidth, List.set_getElem_self]

-- A field that is given a value of its own width.
theorem onSlice_some (hfits : pieces.map List.length = widths) (i start stop : Nat)
    {field field' : List UInt8}
    (hfield : pieces[i]? = some field) (hstart : (widths.take i).sum = start)
    (hstop : widths[i]? = some (stop - start)) (hle : start ≤ stop) (hf : f field = some field')
    (hlen : field'.length = stop - start) :
    onSlice pieces.flatten start stop f = some (pieces.set i field').flatten ∧
      (pieces.set i field').map List.length = widths := by
  refine ⟨?_, fits_set hfits i (by rw [hlen]; exact hstop)⟩
  rw [onSlice_field hfits i start stop hfield hstart hstop hle, hf, Option.map_some]

theorem set_field (hfits : pieces.map List.length = widths) (i start : Nat) {b : UInt8} (b' : UInt8)
    (hfield : pieces[i]? = some [b]) (hstart : (widths.take i).sum = start)
    (hwidth : widths[i]? = some 1) :
    pieces.flatten.set start b' = (pieces.set i [b']).flatten ∧
      (pieces.set i [b']).map List.length = widths := by
  refine ⟨?_, fits_set hfits i hwidth⟩
  obtain ⟨hi, hb⟩ := List.getElem?_eq_some_iff.mp hfield
  have hfront : (pieces.take i).flatten.length = start := by
    rw [List.length_flatten, List.map_take, hfits, hstart]
  have hset : ∀ field, pieces.set i field = pieces.take i ++ field :: pieces.drop (i + 1) :=
    fun field => List.set_eq_take_cons_drop field hi
  have hpieces : pieces.take i ++ [b] :: pieces.drop (i + 1) = pieces := by
    rw [← hb, ← hset, List.set_getElem_self]
  have hpiece := set_pieces (pieces.take i) b b' (pieces.drop (i + 1)) hfront
  rw [hpieces] at hpiece
  rw [hset]
  exact hpiece

end Layout

section Written

def nameField (path : List UInt8) : List UInt8 := path ++ zeros (100 - path.length)

theorem length_nameField {path : List UInt8} (hpath : path.length ≤ 100) :
    (nameField path).length = 100 := by
  unfold nameField
  rw [List.length_append, length_zeros]
  omega

-- What is summed up: spaces stand where the checksum will be.
def Fields.unsigned (path : List UInt8) (size mtime : Nat) : Fields where
  name := nameField path
  mode := number 7 0o644
  uid := number 7 0
  gid := number 7 0
  size := number 11 size
  mtime := number 11 mtime
  checksum := List.replicate 7 32
  gap := [32]
  typeflag := [48]
  magic := ustar
  version := [48, 48]

def Fields.signed (path : List UInt8) (size mtime : Nat) : Fields :=
  { Fields.unsigned path size mtime with
    checksum := number 6 (byteSum (Fields.unsigned path size mtime).bytes) }

theorem unsigned_fits {path : List UInt8} {size mtime : Nat} (hpath : path.length ≤ 100)
    (hsize : size < 8 ^ 11) (hmtime : mtime < 8 ^ 11) : (Fields.unsigned path size mtime).Fits := by
  have hmagic : ustar.length = 5 := by decide
  unfold Fields.Fits Fields.pieces Fields.unsigned
  simp only [List.map_cons, List.map_nil, length_nameField hpath, length_number (by decide) hsize,
    length_number (by decide) hmtime, length_zeros, List.length_replicate, hmagic]
  rw [length_number (by decide) (by decide), length_number (by decide) (by decide)]
  rfl

theorem byteSum_le (bytes : List UInt8) : byteSum bytes ≤ 255 * bytes.length := by
  induction bytes with
  | nil => exact Nat.le_refl _
  | cons b bytes ih =>
      have hb := b.toNat_lt
      have hsum : byteSum (b :: bytes) = b.toNat + byteSum bytes := by
        unfold byteSum
        rw [List.map_cons, List.sum_cons]
      rw [hsum, List.length_cons]
      omega

-- Whatever a header holds, the sum over it has six digits.
theorem checksum_fits {h : Fields} (hfits : h.Fits) : byteSum h.bytes < 8 ^ 6 := by
  have hsum := byteSum_le h.bytes
  rw [hfits.length] at hsum
  unfold block at hsum
  omega

theorem onSlice_name {path : List UInt8} (hpath : path.length ≤ 100) :
    (onSlice (List.replicate block 0) 0 path.length fun field =>
      copyFromSlice field path.length path) =
      some { Fields.empty with name := nameField path }.bytes := by
  have hrest : List.replicate block 0 = ([] ++ zeros path.length :: [zeros (block - path.length)]).flatten := by
    simp only [List.nil_append, List.flatten_cons, List.flatten_nil, List.append_nil, zeros_append]
    refine congrArg zeros ?_
    unfold block
    omega
  have hpad : zeros (block - path.length) = zeros (100 - path.length) ++ zeros 412 := by
    rw [zeros_append]
    refine congrArg zeros ?_
    unfold block
    omega
  have hcopy : copyFromSlice (zeros path.length) path.length path = some path := by
    unfold copyFromSlice
    rw [if_pos ⟨Nat.le_of_eq (length_zeros _).symm, rfl⟩,
      List.drop_eq_nil_of_le (Nat.le_of_eq (length_zeros _)), List.append_nil]
  have hslice : (onSlice (List.replicate block 0) 0 path.length fun field =>
      copyFromSlice field path.length path) = some (path ++ zeros (block - path.length)) := by
    rw [hrest]
    refine (onSlice_pieces [] (zeros path.length) _ rfl ?_).trans ?_
    · rw [length_zeros]
      exact Nat.zero_add _
    · rw [hcopy]
      simp only [Option.map_some, List.nil_append, List.flatten_cons, List.flatten_nil, List.append_nil]
  rw [hslice, named_bytes, hpad, nameField, List.append_assoc]

-- What is before the checksum and the byte behind it, and what comes after them.
def Fields.lead (h : Fields) : List UInt8 :=
  [h.name, h.mode, h.uid, h.gid, h.size, h.mtime].flatten

def Fields.trail (h : Fields) : List UInt8 :=
  [h.typeflag, zeros 100, h.magic, zeros 1, h.version, zeros 247].flatten

theorem bytes_eq (h : Fields) : h.bytes = h.lead ++ (h.checksum ++ h.gap) ++ h.trail := by
  unfold Fields.bytes Fields.pieces Fields.lead Fields.trail
  simp only [List.flatten_cons, List.flatten_nil, List.append_nil, List.append_assoc]

theorem Fields.Fits.lead {h : Fields} (hfits : h.Fits) : h.lead.length = 148 := by
  have hlead : h.lead = (h.pieces.take 6).flatten := rfl
  rw [hlead, List.length_flatten, List.map_take, hfits]
  rfl

theorem Fields.Fits.sum {h : Fields} (hfits : h.Fits) : (h.checksum ++ h.gap).length = 8 := by
  have hsum : h.checksum ++ h.gap = ((h.pieces.drop 6).take 2).flatten := by
    show _ = [h.checksum, h.gap].flatten
    rw [List.flatten_cons, List.flatten_singleton]
  rw [hsum, List.length_flatten, List.map_take, List.map_drop, hfits]
  rfl

-- The checksum and the byte behind it are made blank together.
theorem onSlice_blank {h : Fields} (hfits : h.Fits) :
    (onSlice h.bytes 148 156 fun field => some (field.map fun _ => 32)) =
      some { h with checksum := List.replicate 7 32, gap := [32] }.bytes := by
  have hpieces : h.bytes = ([h.lead] ++ (h.checksum ++ h.gap) :: [h.trail]).flatten := by
    rw [bytes_eq]
    simp only [List.flatten_append, List.flatten_cons, List.flatten_nil, List.append_nil,
      List.append_assoc]
  have hblank : (h.checksum ++ h.gap).map (fun _ => (32 : UInt8)) = List.replicate 7 32 ++ [32] := by
    rw [List.map_const', hfits.sum]
    rfl
  rw [hpieces]
  refine (onSlice_pieces [h.lead] (h.checksum ++ h.gap) _ ?_ ?_).trans ?_
  · rw [List.flatten_singleton]
    exact hfits.lead
  · rw [hfits.sum]
  · rw [hblank, Option.map_some, bytes_eq]
    simp only [List.flatten_append, List.flatten_cons, List.flatten_nil, List.append_nil,
      List.append_assoc]
    rfl

theorem blank_fits {h : Fields} (hfits : h.Fits) :
    { h with checksum := List.replicate 7 32, gap := [32] }.Fits :=
  fits_set (@fits_set _ hfits 6 (List.replicate 7 32) rfl) 7 rfl

-- What is written before the two numbers that depend on the entry.
def Fields.front (path : List UInt8) : Fields :=
  { Fields.empty with
    name := nameField path
    mode := number 7 0o644
    uid := number 7 0
    gid := number 7 0 }

theorem front_written {path : List UInt8} (hpath : path.length ≤ 100)
    (rest : List UInt8 → Option (List UInt8)) :
    (do
      let header ← onSlice (List.replicate block 0) 0 path.length fun field =>
        copyFromSlice field path.length path
      let header ← onSlice header 100 108 fun field => writeOctal field 0o644
      let header ← onSlice header 108 116 fun field => writeOctal field 0
      let header ← onSlice header 116 124 fun field => writeOctal field 0
      rest header) = rest (Fields.front path).bytes ∧ (Fields.front path).Fits := by
  have hnumber : ∀ {field : List UInt8} {value : Nat}, field.length = 8 → value < 8 ^ 7 →
      writeOctal field value = some (number 7 value) := by
    intro field value hfield hvalue
    unfold writeOctal
    rw [hfield, writeOctalN_eq value (by decide) hfield, if_pos hvalue]
  have hfits : { Fields.empty with name := nameField path }.pieces.map List.length = widths :=
    fits_set empty_fits 0 (congrArg some (length_nameField hpath).symm)
  obtain ⟨hmode, hfits⟩ := onSlice_some (f := fun field => writeOctal field 0o644) hfits 1 100 108
    rfl rfl rfl (by decide) (hnumber rfl (by decide)) (length_number (by decide) (by decide))
  obtain ⟨huid, hfits⟩ := onSlice_some (f := fun field => writeOctal field 0) hfits 2 108 116
    rfl rfl rfl (by decide) (hnumber rfl (by decide)) (length_number (by decide) (by decide))
  obtain ⟨hgid, hfits⟩ := onSlice_some (f := fun field => writeOctal field 0) hfits 3 116 124
    rfl rfl rfl (by decide) (hnumber rfl (by decide)) (length_number (by decide) (by decide))
  refine ⟨?_, hfits⟩
  simp only [onSlice_name hpath, Option.bind_eq_bind, Option.bind_some]
  rw [Fields.bytes, hmode, Option.bind_some, huid, Option.bind_some, hgid, Option.bind_some]
  rfl

def Fields.numbered (path : List UInt8) (size mtime : Nat) : Fields :=
  { Fields.front path with
    size := number 11 size
    mtime := number 11 mtime }

theorem numbers_written {path : List UInt8} (size mtime : Nat) (hfits : (Fields.front path).Fits)
    (rest : List UInt8 → Option (List UInt8)) :
    (do
      let header ← onSlice (Fields.front path).bytes 124 136 fun field => writeOctal12 field size
      let header ← onSlice header 136 148 fun field => writeOctal12 field mtime
      rest header) =
      if size < 8 ^ 11 ∧ mtime < 8 ^ 11 then rest (Fields.numbered path size mtime).bytes else none := by
  have hwrite : ∀ {field : List UInt8} (value : Nat), field.length = 12 →
      writeOctal12 field value = if value < 8 ^ 11 then some (number 11 value) else none :=
    fun value hfield => writeOctalN_eq value (by decide) hfield
  by_cases hsize : size < 8 ^ 11
  · obtain ⟨hsizes, hfits⟩ := onSlice_some (f := fun field => writeOctal12 field size) hfits 4 124 136
      rfl rfl rfl (by decide) ((hwrite size rfl).trans (if_pos hsize))
      (length_number (by decide) hsize)
    rw [Fields.bytes, hsizes, Option.bind_eq_bind, Option.bind_some,
      onSlice_field hfits 5 136 148 rfl rfl rfl (by decide), hwrite mtime rfl]
    by_cases hmtime : mtime < 8 ^ 11
    · rw [if_pos hmtime, if_pos ⟨hsize, hmtime⟩, Option.map_some]
      rfl
    · rw [if_neg hmtime, if_neg fun h => hmtime h.2]
      rfl
  · rw [Fields.bytes, onSlice_field hfits 4 124 136 rfl rfl rfl (by decide), hwrite size rfl, if_neg hsize,
      if_neg fun h => hsize h.1]
    rfl

theorem numbered_fits {path : List UInt8} {size mtime : Nat} (hfits : (Fields.front path).Fits)
    (hsize : size < 8 ^ 11) (hmtime : mtime < 8 ^ 11) : (Fields.numbered path size mtime).Fits := by
  have hsizes : widths[4]? = some (number 11 size).length := by
    rw [length_number (by decide) hsize]
    rfl
  have hmtimes : widths[5]? = some (number 11 mtime).length := by
    rw [length_number (by decide) hmtime]
    rfl
  exact fits_set (fits_set hfits 4 hsizes) 5 hmtimes

-- A header is made where both numbers fit their eleven digits, and nowhere else.
theorem tarHeader_eq {path : List UInt8} (size mtime : Nat) (hpath : path.length ≤ 100) :
    tarHeader path size mtime =
      if size < 8 ^ 11 ∧ mtime < 8 ^ 11 then some (Fields.signed path size mtime).bytes else none := by
  have hfront := (front_written hpath some).2
  unfold tarHeader
  rw [(front_written hpath _).1, numbers_written size mtime hfront]
  by_cases hfit : size < 8 ^ 11 ∧ mtime < 8 ^ 11
  · rw [if_pos hfit, if_pos hfit]
    have hnumbers := numbered_fits hfront hfit.1 hfit.2
    have hmagic : ustar.length = 5 := by decide
    have hcopy : ∀ {field src : List UInt8} (n : Nat), field.length = n → src.length = n →
        copyFromSlice field n src = some src := by
      intro field src n hfield hsrc
      unfold copyFromSlice
      rw [if_pos ⟨Nat.le_of_eq hfield.symm, hsrc⟩, List.drop_eq_nil_of_le (Nat.le_of_eq hfield),
        List.append_nil]
    obtain ⟨hflag, hfits⟩ := set_field (blank_fits hnumbers) 8 156 48 rfl rfl rfl
    obtain ⟨hmagics, hfits⟩ := onSlice_some (f := fun field => copyFromSlice field 5 ustar) hfits 10
      257 262 rfl rfl rfl (by decide) (hcopy 5 rfl hmagic) hmagic
    obtain ⟨hversion, hfits⟩ := onSlice_some (f := fun field => copyFromSlice field 2 [48, 48]) hfits
      12 263 265 rfl rfl rfl (by decide) (hcopy 2 rfl rfl) rfl
    have hsum := checksum_fits (h := Fields.unsigned path size mtime) hfits
    obtain ⟨hchecksum, hfits⟩ := onSlice_some (f := fun field => writeOctalN field
      (byteSum (Fields.unsigned path size mtime).bytes) 6) hfits 6 148 155 rfl rfl rfl (by decide)
      ((writeOctalN_eq _ (by decide) rfl).trans (if_pos hsum)) (length_number (by decide) hsum)
    obtain ⟨hgap, -⟩ := set_field hfits 7 155 32 rfl rfl rfl
    rw [onSlice_blank hnumbers, Option.bind_eq_bind, Option.bind_some]
    simp only [Fields.bytes, hflag, hmagics, hversion, Option.bind_some]
    refine (congrArg (Option.bind · fun header => some (header.set 155 32)) hchecksum).trans ?_
    exact congrArg some hgap
  · rw [if_neg hfit, if_neg hfit]

end Written

end VMForge.Cli
