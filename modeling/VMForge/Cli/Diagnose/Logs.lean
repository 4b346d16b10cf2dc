import VMForge.Cli.Diagnose
import VMForge.Cli.Redact.Pem

namespace VMForge.Cli

open Text

def pemBegin : List UInt8 := Utf8.encode "-----BEGIN".toList

def pemEnd : List UInt8 := Utf8.encode "-----END".toList

-- A block of a log file. Its markers start their lines, and the first end marker closes it.
structure PemBlock (content : List UInt8) where
  before : List UInt8
  label : List UInt8
  body : List (List UInt8)
  after : List UInt8
  parts : content = before ++ (pemBegin ++ label ++ [10]) ++ (body.flatMap (· ++ [10]) ++
    (pemEnd ++ after))
  starts : before = [] ∨ before.getLast? = some 10
  label_line : 10 ∉ label
  body_lines : ∀ line ∈ body, 10 ∉ line
  body_ends : ∀ line ∈ body, ∀ text, Utf8.decode line = some text → ends text = false

-- The lines of what is read, before the filter sees them.
theorem lines_tailFile {content : List UInt8} {text : List Char} (hne : text ≠ [])
    (h : Utf8.decode (content.drop (content.length - logTailBytes)) = some text) :
    ∃ tail, tailFile content = some tail ∧
      lines tail = ((lines text).drop ((lines text).length - logTailLines)).map strip := by
  have hpos := lineCount_pos fun hnil => hne (encode_eq_nil.mp hnil)
  rw [← length_lines] at hpos
  refine ⟨['\n'].intercalate ((lines text).drop ((lines text).length - logTailLines)) ++ ['\n'],
    ?_, ?_⟩
  · unfold tailFile
    rw [h]
    rfl
  · apply lines_intercalate
    · rw [Ne, List.drop_eq_nil_iff]
      unfold logTailLines
      omega
    · exact fun line hline => lines_mem_newline line (List.mem_of_mem_drop hline)

namespace PemBlock

variable {content content' : List UInt8}

-- The file from the end marker on.
def rest (b : PemBlock content) : List UInt8 := pemEnd ++ b.after

-- No line between the markers, told from the end of the file, leaves a line in the excerpt.
def Dropped (b : PemBlock content) : Prop :=
  ∀ tail, tailFile content = some tail →
    ∀ out ∈ ((redactLines false (lines tail)).reverse.drop (lineCount b.rest)).take b.body.length,
      out = none

-- Another file with other letters and digits in the block.
def Alike (b : PemBlock content) (b' : PemBlock content') : Prop :=
  b'.before = b.before ∧ b'.label = b.label ∧ b'.after = b.after ∧
    b'.body.map List.length = b.body.map List.length ∧
    (∀ line ∈ b.body, ∀ byte ∈ line, byte.toNat < 128) ∧
    ∀ line ∈ b'.body, ∀ byte ∈ line, byte.toNat < 128

-- A line that the filter takes for the start of a block.
def Marked (bytes : List UInt8) : Prop := ∃ text, Utf8.decode bytes = some text ∧ begins text = true

-- Where the cut falls: the log is not read as text, the block is without a body, the cut is behind
-- the body, or the lines from the first marker on are among the last and what the bytes leave of
-- that marker's line still is one.
def Clear (b : PemBlock content) : Prop :=
  Utf8.decode (content.drop (content.length - logTailBytes)) = none ∨ b.body = [] ∨
    logTailBytes ≤ b.rest.length ∨ logTailLines ≤ lineCount b.rest ∨
    b.body.length + lineCount b.rest < logTailLines ∧
      Marked ((pemBegin ++ b.label).drop (content.length - logTailBytes - b.before.length))

variable {b : PemBlock content}

-- The file in three parts: up to the end of the first marker's line, the body, and the rest.
def head (b : PemBlock content) : List UInt8 := b.before ++ (pemBegin ++ b.label ++ [10])

def block (b : PemBlock content) : List UInt8 := b.body.flatMap (· ++ [10])

def cut (_ : PemBlock content) : Nat := content.length - logTailBytes

theorem length_content (b : PemBlock content) :
    content.length = b.head.length + b.block.length + b.rest.length := by
  have hlen := congrArg List.length b.parts
  simp only [List.length_append] at hlen
  simp only [head, block, rest, List.length_append]
  omega

theorem length_head (b : PemBlock content) :
    b.head.length = b.before.length + ((pemBegin ++ b.label).length + 1) := by
  unfold head
  rw [List.length_append, @List.length_append _ (pemBegin ++ b.label), List.length_singleton]

theorem tail_eq (b : PemBlock content) :
    content.drop b.cut = b.head.drop b.cut ++ (b.block.drop (b.cut - b.head.length) ++
      b.rest.drop (b.cut - b.head.length - b.block.length)) := by
  have hparts : content = b.head ++ (b.block ++ b.rest) := b.parts
  calc content.drop b.cut = (b.head ++ (b.block ++ b.rest)).drop b.cut :=
        congrArg (List.drop b.cut) hparts
    _ = _ := by rw [List.drop_append, List.drop_append]

theorem head_ended (b : PemBlock content) : Ended b.head := by
  unfold head
  exact Ended.of_append (by rw [List.getLast?_concat])

theorem block_ended (b : PemBlock content) : Ended b.block := by
  unfold block
  obtain hnil | ⟨body, line, hbody⟩ := List.eq_nil_or_concat b.body
  · rw [hnil]
    exact Or.inl rfl
  · rw [hbody, List.concat_eq_append, List.flatMap_append, List.flatMap_singleton]
    exact Ended.of_append (by rw [List.getLast?_concat])

-- What is read of a block's file: the three parts as texts.
structure Kept (b : PemBlock content) where
  xs : List Char
  ms : List Char
  ys : List Char
  head : b.head.drop b.cut = Utf8.encode xs
  block : b.block.drop (b.cut - b.head.length) = Utf8.encode ms
  rest : b.rest.drop (b.cut - b.head.length - b.block.length) = Utf8.encode ys
  head_whole : Whole xs
  block_whole : Whole ms

theorem Kept.text (k : Kept b) : Utf8.decode (content.drop b.cut) = some (k.xs ++ (k.ms ++ k.ys)) := by
  rw [b.tail_eq, k.head, k.block, k.rest, ← Utf8.encode_append, ← Utf8.encode_append,
    Utf8.decode_encode]

theorem exists_kept {text : List Char} (h : Utf8.decode (content.drop b.cut) = some text) :
    Nonempty (Kept b) := by
  rw [b.tail_eq] at h
  obtain ⟨xs, rest, hxs, hrest, -, hwhole⟩ := decode_append (b.head_ended.of_drop b.cut) h
  obtain ⟨ms, ys, hms, hys, -, hwhole'⟩ :=
    decode_append (b.block_ended.of_drop _) (Utf8.decode_iff.mpr hrest)
  exact ⟨⟨xs, ms, ys, hxs, hms, hys, hwhole, hwhole'⟩⟩

namespace Kept

variable (k : Kept b)

-- How many of the lines are too many.
def skipped (k : Kept b) : Nat :=
  (lines k.xs).length + (lines k.ms).length + (lines k.ys).length - logTailLines

-- The lines that are kept, of the three parts.
def pre (k : Kept b) : List (List Char) := ((lines k.xs).drop k.skipped).map strip

def mid (k : Kept b) : List (List Char) :=
  ((lines k.ms).drop (k.skipped - (lines k.xs).length)).map strip

def post (k : Kept b) : List (List Char) :=
  ((lines k.ys).drop (k.skipped - (lines k.xs).length - (lines k.ms).length)).map strip

theorem lines_tail : ∃ tail, tailFile content = some tail ∧ lines tail = k.pre ++ k.mid ++ k.post := by
  have hne : k.xs ++ (k.ms ++ k.ys) ≠ [] := by
    intro hnil
    have htext := Utf8.decode_iff.mp k.text
    rw [hnil, Utf8.encode_nil, List.drop_eq_nil_iff] at htext
    have hlen := b.length_content
    have hhead : 0 < b.head.length := by simp [PemBlock.head]
    simp only [cut, logTailBytes] at htext
    omega
  obtain ⟨tail, htail, hlines⟩ := lines_tailFile hne k.text
  refine ⟨tail, htail, ?_⟩
  rw [hlines, lines_whole k.head_whole, lines_whole k.block_whole, ← List.append_assoc,
    List.length_append, List.length_append, List.drop_append, List.drop_append]
  simp only [List.map_append, List.length_append, Nat.sub_sub, Nat.add_assoc, pre, mid, post, skipped]

theorem length_xs : (lines k.xs).length = (b.head.drop b.cut).count 10 := by
  rw [length_lines, ← k.head, (b.head_ended.of_drop _).lineCount]

theorem length_ms : (lines k.ms).length = (b.block.drop (b.cut - b.head.length)).count 10 := by
  rw [length_lines, ← k.block, (b.block_ended.of_drop _).lineCount]

theorem length_ys_le : (lines k.ys).length ≤ lineCount b.rest := by
  rw [length_lines, ← k.rest]
  exact lineCount_drop _ _

theorem count_block (b : PemBlock content) : b.block.count 10 = b.body.length := by
  have hcount : ∀ body : List (List UInt8), (∀ line ∈ body, 10 ∉ line) →
      (body.flatMap (· ++ [10])).count 10 = body.length := by
    intro body hbody
    induction body with
    | nil => rfl
    | cons line body ih =>
        rw [List.flatMap_cons, List.count_append, List.count_append,
          List.count_eq_zero.mpr (hbody line List.mem_cons_self),
          ih fun l hl => hbody l (List.mem_cons_of_mem _ hl)]
        simp [Nat.add_comm]
  exact hcount b.body b.body_lines

theorem length_ms_le : (lines k.ms).length ≤ b.body.length := by
  rw [k.length_ms, ← count_block]
  exact (List.drop_sublist _ _).count_le 10

-- A cut in the head leaves the body and the rest whole, and one in the body the rest.
theorem length_ms_eq (h : b.cut ≤ b.head.length) : (lines k.ms).length = b.body.length := by
  rw [k.length_ms, Nat.sub_eq_zero_of_le h, List.drop_zero, count_block]

theorem length_ys_eq (h : b.cut ≤ b.head.length + b.block.length) :
    (lines k.ys).length = lineCount b.rest := by
  have hzero : b.cut - b.head.length - b.block.length = 0 := by omega
  rw [length_lines, ← k.rest, hzero, List.drop_zero]

theorem xs_nil : lines k.xs = [] ↔ b.head.length ≤ b.cut := by
  rw [← List.length_eq_zero_iff, length_xs]
  constructor
  · intro h
    by_contra hcut
    have hne : b.head.drop b.cut ≠ [] := fun hnil => hcut (List.drop_eq_nil_iff.mp hnil)
    have hmem := List.mem_of_getLast? ((b.head_ended.of_drop b.cut).resolve_left hne)
    exact List.count_eq_zero.mp h hmem
  · intro h
    rw [List.drop_eq_nil_iff.mpr h, List.count_nil]

theorem ms_nil : lines k.ms = [] ↔ b.block.length ≤ b.cut - b.head.length := by
  rw [← List.length_eq_zero_iff, length_ms]
  constructor
  · intro h
    by_contra hcut
    have hne : b.block.drop (b.cut - b.head.length) ≠ [] := fun hnil =>
      hcut (List.drop_eq_nil_iff.mp hnil)
    have hmem := List.mem_of_getLast? ((b.block_ended.of_drop _).resolve_left hne)
    exact List.count_eq_zero.mp h hmem
  · intro h
    rw [List.drop_eq_nil_iff.mpr h, List.count_nil]

-- A line before the body is among those that are kept only if the whole body is.
theorem pre_cut (h : k.pre ≠ []) : b.cut < b.head.length ∧ k.skipped < (lines k.xs).length := by
  constructor
  · by_contra hcut
    apply h
    unfold pre
    rw [k.xs_nil.mpr (by omega), List.drop_nil]
    rfl
  · by_contra hover
    apply h
    unfold pre
    rw [List.drop_eq_nil_iff.mpr (by omega)]
    rfl

theorem mid_ends (h : k.pre ≠ []) : ∀ line ∈ k.mid, ends line = false := by
  have hcode := k.block
  rw [Nat.sub_eq_zero_of_le (k.pre_cut h).1.le, List.drop_zero] at hcode
  obtain ⟨texts, htexts, hlines⟩ := lines_block b.body_lines hcode.symm
  intro line hline
  obtain ⟨l, hl, rfl⟩ := List.mem_map.mp hline
  rw [hlines] at hl
  obtain ⟨text, htext, rfl⟩ := List.mem_map.mp (List.mem_of_mem_drop hl)
  have hbody : Utf8.encode text ∈ b.body := by
    rw [← htexts]
    exact List.mem_map_of_mem htext
  have hends := b.body_ends _ hbody text (Utf8.decode_encode text)
  unfold ends at hends ⊢
  rw [trim_strip, trim_strip, hends]

theorem dropped_iff_inside : b.Dropped ↔ k.mid = [] ∨ pemAfter false k.pre = true := by
  obtain ⟨tail, htail, hlines⟩ := k.lines_tail
  have hys := k.length_ys_le
  have hms := k.length_ms_le
  have hmid : k.mid.length = (lines k.ms).length - (k.skipped - (lines k.xs).length) := by
    simp [mid]
  have hpost : k.post.length =
      (lines k.ys).length - (k.skipped - (lines k.xs).length - (lines k.ms).length) := by
    simp [post]
  have hinside := @inside_dropped k.pre k.mid k.post b.body.length (lineCount b.rest) (by omega) ?_
    (by omega) ?_ k.mid_ends
  · rw [← hinside, ← hlines]
    exact ⟨fun h => h tail htail, fun h tail' htail' => by
      obtain rfl := Option.some.inj (htail.symm.trans htail')
      exact h⟩
  · intro hlt
    by_cases hcut : b.cut ≤ b.head.length + b.block.length
    · have hlen := k.length_ys_eq hcut
      unfold pre mid
      rw [List.drop_eq_nil_iff.mpr (by omega), List.drop_eq_nil_iff.mpr (by omega)]
      exact ⟨rfl, rfl⟩
    · unfold pre mid
      rw [k.xs_nil.mpr (by omega), k.ms_nil.mpr (by omega), List.drop_nil, List.drop_nil]
      exact ⟨rfl, rfl⟩
  · intro hpre
    have hlen := k.length_ms_eq (k.pre_cut hpre).1.le
    have hlt := (k.pre_cut hpre).2
    omega

theorem mid_nil_iff : k.mid = [] ↔
    b.body = [] ∨ logTailBytes ≤ b.rest.length ∨ logTailLines ≤ lineCount b.rest := by
  have hmid : k.mid.length = (lines k.ms).length - (k.skipped - (lines k.xs).length) := by
    simp [mid]
  have hlen := b.length_content
  have hhead : 0 < b.head.length := by simp [PemBlock.head]
  have hms := k.ms_nil
  rw [← List.length_eq_zero_iff] at hms
  have hbody : b.block.length = 0 ↔ b.body = [] := by
    rw [List.length_eq_zero_iff, PemBlock.block, List.flatMap_eq_nil_iff]
    constructor
    · intro h
      by_contra hne
      obtain ⟨line, body, hcons⟩ := List.exists_cons_of_ne_nil hne
      exact absurd (h line (by rw [hcons]; exact List.mem_cons_self)) (by simp)
    · intro h line hline
      rw [h] at hline
      cases hline
  rw [← List.length_eq_zero_iff, hmid, ← hbody]
  have hcut : b.cut = content.length - logTailBytes := rfl
  have hbytes : logTailBytes = 262144 := rfl
  by_cases hbehind : b.cut ≤ b.head.length + b.block.length
  · have hys := k.length_ys_eq hbehind
    unfold skipped
    omega
  · have hzero := hms.mpr (by omega)
    omega

theorem begins_strip (line : List Char) : begins (strip line) = begins line := by
  unfold begins
  rw [trim_strip]

-- The marker's line as far as it is read, and what is read before it.
theorem head_lines (hcut : b.cut < b.head.length) :
    ∃ front line, lines k.xs = lines front ++ [strip line] ∧
      Utf8.encode front = b.before.drop b.cut ∧
      Utf8.encode line = (pemBegin ++ b.label).drop (b.cut - b.before.length) := by
  have hlen := b.length_head
  have hxs : Utf8.encode k.xs = b.before.drop b.cut ++
      ((pemBegin ++ b.label).drop (b.cut - b.before.length) ++ [10]) := by
    rw [← k.head, PemBlock.head, List.drop_append,
      List.drop_append_of_le_length (by omega)]
  have hbefore : Ended b.before := b.starts
  obtain ⟨front, rest, hfront, hrest, htext, hwhole⟩ :=
    decode_append (hbefore.of_drop b.cut) (Utf8.decode_iff.mpr hxs.symm)
  obtain ⟨line, ys, rfl, hline, hys⟩ := Utf8.encode_split hrest.symm
  have hnil : ys = [] := encode_eq_nil.mp hys
  have hnot : '\n' ∉ line := by
    intro hmem
    have hbyte : (10 : UInt8) ∈ Utf8.encode line := List.mem_flatMap.mpr ⟨'\n', hmem, by decide⟩
    rw [hline] at hbyte
    obtain hbyte | hbyte := List.mem_append.mp (List.mem_of_mem_drop hbyte)
    · exact absurd hbyte (by decide +kernel)
    · exact b.label_line hbyte
  refine ⟨front, line, ?_, hfront.symm, hline⟩
  rw [htext, hnil, lines_whole hwhole, lines_ended, splitOn_of_notMem hnot]
  rfl

theorem marked_iff {line : List Char} {bytes : List UInt8} (h : Utf8.encode line = bytes) :
    Marked bytes ↔ begins line = true := by
  unfold Marked
  rw [← h, Utf8.decode_encode]
  constructor
  · rintro ⟨text, htext, hbegin⟩
    obtain rfl := Option.some.inj htext
    exact hbegin
  · exact fun hbegin => ⟨line, rfl, hbegin⟩

theorem begins_marker {line : List Char} (h : Utf8.encode line = pemBegin ++ b.label) :
    begins line = true := by
  obtain ⟨rest, rfl⟩ := Utf8.prefix_of_encode h
  exact List.isPrefixOf_iff_prefix.mpr
    (@prefix_trim _ rest '-' 'N' (by decide +kernel) (by decide +kernel) (by decide) (by decide))

theorem inside_iff (_ : b.rest.length < logTailBytes) (_ : lineCount b.rest < logTailLines) :
    pemAfter false k.pre = true ↔ b.body.length + lineCount b.rest < logTailLines ∧
      Marked ((pemBegin ++ b.label).drop (b.cut - b.before.length)) := by
  by_cases hcut : b.cut < b.head.length
  · obtain ⟨front, line, hxs, hfront, hline⟩ := k.head_lines hcut
    have hskip : k.skipped =
        (lines front).length + 1 + b.body.length + lineCount b.rest - logTailLines := by
      rw [skipped, k.length_ms_eq hcut.le, k.length_ys_eq (by omega), hxs, List.length_append,
        List.length_singleton]
    rw [marked_iff hline]
    by_cases hall : b.body.length + lineCount b.rest < logTailLines
    · have hpre : k.pre = ((lines front).drop k.skipped).map strip ++ [strip (strip line)] := by
        rw [pre, hxs, List.drop_append_of_le_length (by omega), List.map_append]
        rfl
      rw [hpre]
      refine ⟨fun hin => ⟨hall, ?_⟩, fun h => ?_⟩
      · by_contra hbegin
        have hbefore : b.before.length < b.cut := by
          by_contra hle
          rw [Nat.sub_eq_zero_of_le (by omega), List.drop_zero] at hline
          exact hbegin (begins_marker hline)
        rw [List.drop_eq_nil_iff.mpr hbefore.le] at hfront
        rw [encode_eq_nil.mp hfront, lines_nil, List.drop_nil, List.map_nil, List.nil_append] at hin
        rw [← begins_strip, ← begins_strip] at hbegin
        exact hbegin hin
      · apply pemAfter_begins
        rw [begins_strip, begins_strip]
        exact h.2
    · have hpre : k.pre = [] := by
        rw [pre, hxs, List.drop_eq_nil_iff.mpr]
        · rfl
        · rw [List.length_append, List.length_singleton]
          omega
      rw [hpre]
      exact ⟨fun h => (by cases h), fun h => absurd h.1 hall⟩
  · have hpre : k.pre = [] := by
      rw [pre, k.xs_nil.mpr (by omega), List.drop_nil]
      rfl
    have hgone : (pemBegin ++ b.label).drop (b.cut - b.before.length) = Utf8.encode [] := by
      rw [Utf8.encode_nil, List.drop_eq_nil_iff]
      have hlen := b.length_head
      omega
    rw [hpre, hgone, marked_iff rfl]
    exact ⟨fun h => (by cases h), fun h => absurd h.2 (by decide +kernel)⟩

end Kept

theorem dropped_iff_clear (b : PemBlock content) : b.Dropped ↔ b.Clear := by
  unfold Clear
  cases htext : Utf8.decode (content.drop (content.length - logTailBytes)) with
  | none =>
      refine ⟨fun _ => Or.inl rfl, fun _ tail htail => ?_⟩
      rw [tailFile_none htext] at htail
      cases htail
  | some text =>
      obtain ⟨k⟩ := @exists_kept _ b _ htext
      rw [k.dropped_iff_inside, k.mid_nil_iff]
      by_cases hnil : b.body = [] ∨ logTailBytes ≤ b.rest.length ∨ logTailLines ≤ lineCount b.rest
      · refine ⟨fun _ => Or.inr ?_, fun _ => Or.inl hnil⟩
        obtain h | h | h := hnil
        · exact Or.inl h
        · exact Or.inr (Or.inl h)
        · exact Or.inr (Or.inr (Or.inl h))
      · rw [or_iff_right hnil, k.inside_iff (by omega) (by omega)]
        constructor
        · exact fun h => Or.inr (Or.inr (Or.inr (Or.inr h)))
        · rintro (h | h | h | h | h)
          · cases h
          · exact absurd (Or.inl h) hnil
          · exact absurd (Or.inr (Or.inl h)) hnil
          · exact absurd (Or.inr (Or.inr h)) hnil
          · exact h

section Alike

variable {b' : PemBlock content'}

theorem Alike.symm (h : b.Alike b') : b'.Alike b := by
  obtain ⟨hbefore, hlabel, hafter, hlens, hascii, hascii'⟩ := h
  exact ⟨hbefore.symm, hlabel.symm, hafter.symm, hlens.symm, hascii', hascii⟩

-- Bodies with lines of the same lengths have their newlines in the same places.
theorem newlines_eq {body body' : List (List UInt8)} (hlens : body'.map List.length = body.map List.length)
    (h : ∀ line ∈ body, 10 ∉ line) (h' : ∀ line ∈ body', 10 ∉ line) :
    (body'.flatMap (· ++ [10])).map (· == (10 : UInt8)) =
      (body.flatMap (· ++ [10])).map (· == (10 : UInt8)) := by
  have hline : ∀ line : List UInt8, 10 ∉ line →
      line.map (· == (10 : UInt8)) = List.replicate line.length false := by
    intro line hnot
    refine List.eq_replicate_iff.mpr ⟨List.length_map _, fun flag hflag => ?_⟩
    obtain ⟨byte, hbyte, rfl⟩ := List.mem_map.mp hflag
    rw [beq_eq_false_iff_ne]
    rintro rfl
    exact hnot hbyte
  induction body generalizing body' with
  | nil =>
      rw [List.map_nil, List.map_eq_nil_iff] at hlens
      rw [hlens]
  | cons line body ih =>
      obtain ⟨line', rest', rfl, hlen, hrest⟩ := List.map_eq_cons_iff.mp hlens
      rw [List.flatMap_cons, List.flatMap_cons, List.map_append, List.map_append, List.map_append,
        List.map_append, hline line (h line List.mem_cons_self),
        hline line' (h' line' List.mem_cons_self), hlen,
        ih hrest (fun l hl => h l (List.mem_cons_of_mem _ hl))
          fun l hl => h' l (List.mem_cons_of_mem _ hl)]

theorem Alike.newlines (h : b.Alike b') :
    b'.block.map (· == (10 : UInt8)) = b.block.map (· == (10 : UInt8)) :=
  newlines_eq h.2.2.2.1 b.body_lines b'.body_lines

theorem Alike.head (h : b.Alike b') : b'.head = b.head := by
  unfold PemBlock.head
  rw [h.1, h.2.1]

theorem Alike.rest (h : b.Alike b') : b'.rest = b.rest := by
  unfold PemBlock.rest
  rw [h.2.2.1]

theorem Alike.block_length (h : b.Alike b') : b'.block.length = b.block.length := by
  have hlen := congrArg List.length h.newlines
  rwa [List.length_map, List.length_map] at hlen

theorem Alike.cut (h : b.Alike b') : b'.cut = b.cut := by
  unfold PemBlock.cut
  rw [b.length_content, b'.length_content, h.head, h.rest, h.block_length]

theorem Alike.count (h : b.Alike b') (n : Nat) :
    (b'.block.drop n).count 10 = (b.block.drop n).count 10 := by
  have hflags := congrArg (fun flags => (flags.drop n).countP id) h.newlines
  simp only [← List.map_drop, List.countP_map] at hflags
  exact hflags

theorem block_ascii (h : ∀ line ∈ b.body, ∀ byte ∈ line, byte.toNat < 128) (n : Nat) :
    ∀ byte ∈ b.block.drop n, byte.toNat < 128 := by
  intro byte hbyte
  obtain ⟨line, hline, hmem⟩ := List.mem_flatMap.mp (List.mem_of_mem_drop hbyte)
  obtain hmem | hmem := List.mem_append.mp hmem
  · exact h line hline byte hmem
  · rw [List.mem_singleton.mp hmem]
    decide

-- What is read of the one file is read of the other, but for the body.
theorem Alike.kept (h : b.Alike b') (k : Kept b) :
    ∃ k' : Kept b', k'.xs = k.xs ∧ k'.ys = k.ys := by
  obtain ⟨ms, hms⟩ := Utf8.exists_encode (block_ascii h.2.2.2.2.2 (b'.cut - b'.head.length))
  obtain ⟨ms', -, hms', -, -, hwhole⟩ := @decode_append _ [] ms (b'.block_ended.of_drop _)
    (by rw [List.append_nil, hms, Utf8.decode_encode])
  refine ⟨⟨k.xs, ms', k.ys, ?_, hms', ?_, k.head_whole, hwhole⟩, rfl, rfl⟩
  · rw [h.head, h.cut, k.head]
  · rw [h.rest, h.cut, h.head, h.block_length, k.rest]

theorem Alike.same_excerpt (h : b.Alike b') (hdropped : b.Dropped) :
    excerpt content' = excerpt content := by
  cases htext : Utf8.decode (content.drop b.cut) with
  | none =>
      have htext' : Utf8.decode (content'.drop b'.cut) = none := by
        by_contra hsome
        obtain ⟨text', htext'⟩ := Option.ne_none_iff_exists'.mp hsome
        obtain ⟨k'⟩ := @exists_kept _ b' _ htext'
        obtain ⟨k, -⟩ := h.symm.kept k'
        rw [k.text] at htext
        cases htext
      unfold excerpt
      rw [tailFile_none htext, tailFile_none htext']
  | some text =>
      obtain ⟨k⟩ := @exists_kept _ b _ htext
      obtain ⟨k', hxs, hys⟩ := h.kept k
      obtain ⟨tail, htail, hlines⟩ := k.lines_tail
      obtain ⟨tail', htail', hlines'⟩ := k'.lines_tail
      have hms : (lines k'.ms).length = (lines k.ms).length := by
        rw [k.length_ms, k'.length_ms, h.cut, h.head, h.count]
      have hskip : k'.skipped = k.skipped := by
        unfold Kept.skipped
        rw [hxs, hys, hms]
      have hpre : k'.pre = k.pre := by
        unfold Kept.pre
        rw [hxs, hskip]
      have hpost : k'.post = k.post := by
        unfold Kept.post
        rw [hxs, hys, hms, hskip]
      have hmid : k'.mid.length = k.mid.length := by
        unfold Kept.mid
        rw [List.length_map, List.length_map, List.length_drop, List.length_drop, hxs, hms, hskip]
      have hfilter : redactLines false (k'.pre ++ k'.mid ++ k'.post) =
          redactLines false (k.pre ++ k.mid ++ k.post) := by
        rw [hpre, hpost]
        obtain hnil | hin := k.dropped_iff_inside.mp hdropped
        · rw [hnil, List.length_nil, List.length_eq_zero_iff] at hmid
          rw [hnil, hmid]
        · have hne : k.pre ≠ [] := by
            intro hnil
            rw [hnil] at hin
            cases hin
          obtain ⟨hout, hafter⟩ := redactLines_inside (k.mid_ends hne)
          obtain ⟨hout', hafter'⟩ := redactLines_inside (k'.mid_ends (by rw [hpre]; exact hne))
          simp only [List.append_assoc, redactLines_append, hin, hout, hout', hafter, hafter', hmid]
      unfold excerpt
      rw [htail, htail', Option.map_some, Option.map_some]
      unfold redactText
      rw [hlines, hlines', hfilter]

end Alike

-- No line of a block's body reaches the excerpt, and so what the body says does not matter to it,
-- unless the cut falls so that the filter starts in the block.
theorem block_dropped_iff (b : PemBlock content) :
    (b.Dropped ∧ ∀ (content' : List UInt8) (b' : PemBlock content'), b.Alike b' →
      excerpt content' = excerpt content) ↔ b.Clear := by
  rw [b.dropped_iff_clear]
  exact ⟨fun h => h.1, fun h => ⟨h, fun _ _ halike =>
    halike.same_excerpt (b.dropped_iff_clear.mpr h)⟩⟩

section Long

-- A key of some lines at the end of a log.
def keyText (size : Nat) (line : String) : List Char :=
  "-----BEGIN KEY-----\n".toList ++ (List.replicate size (line.toList ++ ['\n'])).flatten ++
    "-----END KEY-----\n".toList

def keyLog (size : Nat) (line : String) : List UInt8 := Utf8.encode (keyText size line)

def keyBlock (size : Nat) (line : String) (hline : '\n' ∉ line.toList)
    (hends : ends line.toList = false) : PemBlock (keyLog size line) where
  before := []
  label := Utf8.encode " KEY-----".toList
  body := List.replicate size (Utf8.encode line.toList)
  after := Utf8.encode " KEY-----\n".toList
  parts := by
    have hlines : Utf8.encode (List.replicate size (line.toList ++ ['\n'])).flatten =
        (List.replicate size (Utf8.encode line.toList)).flatMap (· ++ [10]) := by
      induction size with
      | zero => rfl
      | succ n ih =>
          rw [List.replicate_succ, List.replicate_succ, List.flatten_cons, List.flatMap_cons,
            Utf8.encode_append, ih, Utf8.encode_append, Utf8.encode_cons, Utf8.encode_newline]
          rfl
    have hbegin : Utf8.encode "-----BEGIN KEY-----\n".toList =
        pemBegin ++ Utf8.encode " KEY-----".toList ++ [10] := by decide +kernel
    have hend : Utf8.encode "-----END KEY-----\n".toList =
        pemEnd ++ Utf8.encode " KEY-----\n".toList := by decide +kernel
    unfold keyLog keyText
    rw [Utf8.encode_append, Utf8.encode_append, hlines, hbegin, hend, List.nil_append,
      List.append_assoc]
  starts := Or.inl rfl
  label_line := by decide +kernel
  body_lines := by
    intro bytes hbytes
    rw [List.eq_of_mem_replicate hbytes]
    exact Utf8.newline_notMem hline
  body_ends := by
    intro bytes hbytes text htext
    rw [List.eq_of_mem_replicate hbytes, Utf8.decode_encode] at htext
    obtain rfl := Option.some.inj htext
    exact hends

-- The log of a short key is read whole.
theorem block_dropped_short : ∃ b : PemBlock (keyLog 27 "AA"), b.Dropped ∧
    ∀ (content' : List UInt8) (b' : PemBlock content'), b.Alike b' →
      excerpt content' = excerpt (keyLog 27 "AA") := by
  have hclear : (keyBlock 27 "AA" (by decide +kernel) (by decide +kernel)).Clear := by
    refine Or.inr (Or.inr (Or.inr (Or.inr ⟨by decide +kernel, ?_⟩)))
    refine ⟨"-----BEGIN KEY-----".toList, ?_, by decide +kernel⟩
    rw [Utf8.decode_iff]
    decide +kernel
  exact ⟨_, (block_dropped_iff _).mpr hclear⟩

-- Of a longer one only the last lines are, and the filter does not see where it starts.
theorem keyBlock_leaks : ∃ b : PemBlock (keyLog 200 "AA"), ∃ b' : PemBlock (keyLog 200 "BB"),
    b.Alike b' ∧ ¬b.Dropped ∧ excerpt (keyLog 200 "BB") ≠ excerpt (keyLog 200 "AA") := by
  refine ⟨keyBlock 200 "AA" (by decide) (by decide),
    keyBlock 200 "BB" (by decide) (by decide), ?_, ?_, ?_⟩
  · have hsmall : ∀ line ∈ List.replicate 200 (Utf8.encode "AA".toList) ++
        List.replicate 200 (Utf8.encode "BB".toList), ∀ byte ∈ line, byte.toNat < 128 := by
      decide +kernel
    refine ⟨rfl, rfl, rfl, by decide +kernel, ?_, ?_⟩
    · exact fun line hline => hsmall line (List.mem_append_left _ hline)
    · exact fun line hline => hsmall line (List.mem_append_right _ hline)
  · rw [dropped_iff_clear]
    rintro (h | h | h | h | ⟨h, -⟩)
    · rw [Nat.sub_eq_zero_of_le (by decide +kernel), List.drop_zero, keyLog,
        Utf8.decode_encode] at h
      cases h
    · exact absurd h (by decide +kernel)
    · exact absurd h (by decide +kernel)
    · exact absurd h (by decide +kernel)
    · exact absurd h (by decide +kernel)
  · have hread : ∀ line, (keyLog 200 line).length ≤ logTailBytes → excerpt (keyLog 200 line) =
        some (redactText (['\n'].intercalate ((lines (keyText 200 line)).drop
          ((lines (keyText 200 line)).length - logTailLines)) ++ ['\n'])) := by
      intro line hline
      unfold excerpt tailFile
      rw [Nat.sub_eq_zero_of_le hline, List.drop_zero, keyLog, Utf8.decode_encode]
      rfl
    rw [hread "AA" (by decide +kernel), hread "BB" (by decide +kernel)]
    intro h
    exact absurd (Option.some.inj h) (by decide +kernel)

end Long

end PemBlock

end VMForge.Cli
