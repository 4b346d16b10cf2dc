import VMForge.Cli.Tarball.Reader

namespace VMForge.Cli

section Append

-- What an entry adds to an archive.
def record (e : Entry) : List UInt8 :=
  (Fields.signed (Utf8.encode e.path) e.contents.length e.mtime).bytes ++ e.contents ++
    zeros ((block - e.contents.length % block) % block)

theorem record_append (out : List UInt8) (e : Entry) :
    out ++ (Fields.signed (Utf8.encode e.path) e.contents.length e.mtime).bytes ++ e.contents ++
      zeros ((block - e.contents.length % block) % block) = out ++ record e := by
  unfold record
  rw [List.append_assoc, List.append_assoc, List.append_assoc]

-- Both numbers of an entry have eleven digits at most.
def Entry.Fits (e : Entry) : Prop := e.contents.length < 8 ^ 11 ∧ e.mtime < 8 ^ 11

instance (e : Entry) : Decidable e.Fits := inferInstanceAs (Decidable (_ ∧ _))

theorem isRefused_iff {path : List Char} :
    isRefused path = true ↔ 100 < (Utf8.encode path).length ∨ path.head? = some '/' := by
  unfold isRefused
  rw [Bool.or_eq_true, decide_eq_true_eq, decide_eq_true_eq]

theorem path_fits {path : List Char} (h : isRefused path ≠ true) : (Utf8.encode path).length ≤ 100 := by
  by_contra hlong
  exact h (isRefused_iff.mpr (Or.inl (by omega)))

theorem append_eq (tar : TarWriter) (e : Entry) (h : isRefused e.path ≠ true) :
    tar.append e.path e.contents e.mtime =
      if e.Fits then some (⟨tar.out ++ record e⟩, .ok ()) else none := by
  unfold TarWriter.append
  rw [if_neg h, tarHeader_eq _ _ (path_fits h)]
  by_cases hfits : e.Fits
  · have hnumbers : e.contents.length < 8 ^ 11 ∧ e.mtime < 8 ^ 11 := hfits
    rw [if_pos hnumbers, if_pos hfits, ← record_append]
    rfl
  · have hnumbers : ¬(e.contents.length < 8 ^ 11 ∧ e.mtime < 8 ^ 11) := hfits
    rw [if_neg hnumbers, if_neg hfits]
    rfl

theorem append_refused (tar : TarWriter) (e : Entry) (h : isRefused e.path = true) :
    tar.append e.path e.contents e.mtime = some (tar, .error (refusal e.path)) := by
  unfold TarWriter.append
  rw [if_pos h]

theorem record_fits {e : Entry} (hpath : isRefused e.path ≠ true) (hfits : e.Fits) :
    (Fields.signed (Utf8.encode e.path) e.contents.length e.mtime).Fits :=
  signed_fits (path_fits hpath) hfits.1 hfits.2

-- A call that refuses the entry writes nothing, and one that takes it writes a header with its numbers.
-- A number that does not fit its field is a panic.
theorem append_handles_iff (tar : TarWriter) (path : List Char) (contents : List UInt8) (mtime : Nat) :
    (∃ tar' result, tar.append path contents mtime = some (tar', result) ∧
      ((∃ message, result = .error message) ∧ tar'.out = tar.out ∨
        result = .ok () ∧ ∃ header pad, header.length = block ∧
          tar'.out = tar.out ++ header ++ contents ++ pad ∧
          readOctal (slice header 124 12) = some contents.length ∧
          readOctal (slice header 136 12) = some mtime ∧
          readOctal (slice header 148 8) = some (headerSum header) ∧ headerSum header < 8 ^ 6)) ↔
      isRefused path = true ∨ contents.length < 8 ^ 11 ∧ mtime < 8 ^ 11 := by
  by_cases hpath : isRefused path = true
  · refine iff_of_true ⟨tar, .error (refusal path), ?_, Or.inl ⟨⟨_, rfl⟩, rfl⟩⟩ (Or.inl hpath)
    exact append_refused tar ⟨path, contents, mtime⟩ hpath
  · have happend := append_eq tar ⟨path, contents, mtime⟩ hpath
    by_cases hfits : contents.length < 8 ^ 11 ∧ mtime < 8 ^ 11
    · have hsigned := signed_fits (path_fits hpath) hfits.1 hfits.2
      have hsum : headerSum (Fields.signed (Utf8.encode path) contents.length mtime).bytes < 8 ^ 6 := by
        rw [headerSum_signed hsigned]
        exact checksum_fits (unsigned_fits (path_fits hpath) hfits.1 hfits.2)
      have hout := (record_append tar.out ⟨path, contents, mtime⟩).symm
      exact iff_of_true ⟨_, _, happend.trans (if_pos hfits), Or.inr ⟨rfl, _, _, hsigned.length, hout,
        readOctal_size hsigned, readOctal_mtime hsigned, readOctal_checksum hsigned, hsum⟩⟩
        (Or.inr hfits)
    · refine iff_of_false ?_ fun h => hfits (h.resolve_left hpath)
      rintro ⟨tar', result, hsome, -⟩
      cases (happend.trans (if_neg hfits)).symm.trans hsome

-- The first second whose number has twelve octal digits.
theorem append_panics : ¬∃ tar' result,
    (TarWriter.mk []).append "report.txt".toList [] (8 ^ 11) = some (tar', result) := by
  rintro ⟨tar', result, hsome⟩
  have happend := append_eq ⟨[]⟩ ⟨"report.txt".toList, [], 8 ^ 11⟩ (by decide)
  have hlate : ¬(Entry.mk "report.txt".toList [] (8 ^ 11)).Fits := fun h => absurd h.2 (by decide)
  rw [happend, if_neg hlate] at hsome
  cases hsome

end Append

section Reading

theorem length_record {e : Entry} (hfits : (Fields.signed (Utf8.encode e.path) e.contents.length
    e.mtime).Fits) : (record e).length = block + stored e.contents.length := by
  unfold record stored
  rw [List.length_append, List.length_append, hfits.length, length_zeros]
  unfold block
  omega

-- The type flag of an entry tells its header from the end of the archive.
theorem signed_ne_zeros {path : List UInt8} {size mtime : Nat}
    (hfits : (Fields.signed path size mtime).Fits) :
    (Fields.signed path size mtime).bytes ≠ zeros block := by
  intro h
  have hflag : slice (Fields.signed path size mtime).bytes 156 1 = [48] :=
    slice_field hfits 8 156 1 rfl rfl rfl
  have hzero : ∀ b ∈ slice (zeros block) 156 1, b = 0 := by
    intro b hb
    exact List.eq_of_mem_replicate (List.mem_of_mem_drop (List.mem_of_mem_take hb))
  rw [← h, hflag] at hzero
  exact absurd (hzero 48 List.mem_cons_self) (by decide)

theorem readEntries_succ (fuel : Nat) (archive : List UInt8) :
    readEntries (fuel + 1) archive =
      if archive.take (2 * block) = zeros (2 * block) then some ([], archive.drop (2 * block))
      else if isHeader (archive.take block) then do
        let path ← readPath (archive.take block)
        let size ← readOctal (slice (archive.take block) 124 12)
        let mtime ← readOctal (slice (archive.take block) 136 12)
        let body := archive.drop block
        if stored size ≤ body.length then
          let (entries, left) ← readEntries fuel (body.drop (stored size))
          some (⟨path, body.take size, mtime⟩ :: entries, left)
        else none
      else none := rfl

-- One entry is read, whatever follows it.
theorem readEntries_record {e : Entry} (hfits : (Fields.signed (Utf8.encode e.path)
    e.contents.length e.mtime).Fits) (hnul : '\x00' ∉ e.path) (fuel : Nat) (rest : List UInt8) :
    readEntries (fuel + 1) (record e ++ rest) =
      (readEntries fuel rest).map fun found => (e :: found.1, found.2) := by
  have hheader : (record e ++ rest).take block =
      (Fields.signed (Utf8.encode e.path) e.contents.length e.mtime).bytes := by
    unfold record
    rw [List.append_assoc, List.append_assoc]
    exact List.take_left' hfits.length
  have hbody : (record e ++ rest).drop block = e.contents ++
      (zeros ((block - e.contents.length % block) % block) ++ rest) := by
    unfold record
    rw [List.append_assoc, List.append_assoc]
    exact List.drop_left' hfits.length
  have hmarker : (record e ++ rest).take (2 * block) ≠ zeros (2 * block) := by
    intro h
    have hle : block ≤ 2 * block := Nat.le_mul_of_pos_left block (by decide)
    have hfirst := congrArg (List.take block) h
    rw [List.take_take, Nat.min_eq_left hle, hheader, zeros, List.take_replicate,
      Nat.min_eq_left hle] at hfirst
    exact signed_ne_zeros hfits hfirst
  have hstored : (e.contents ++ zeros ((block - e.contents.length % block) % block)).length =
      stored e.contents.length := by
    have hlen := length_record hfits
    unfold record at hlen
    rw [List.append_assoc, List.length_append, hfits.length] at hlen
    omega
  have hcontents : ((record e ++ rest).drop block).take e.contents.length = e.contents := by
    rw [hbody]
    exact List.take_left
  have hrest : ((record e ++ rest).drop block).drop (stored e.contents.length) = rest := by
    rw [hbody, ← List.append_assoc]
    exact List.drop_left' hstored
  have hroom : stored e.contents.length ≤ ((record e ++ rest).drop block).length := by
    rw [hbody, ← List.append_assoc, List.length_append, hstored]
    exact Nat.le_add_right ..
  rw [readEntries_succ, if_neg hmarker, hheader, if_pos (isHeader_signed hfits), readPath_signed hfits hnul,
    readOctal_size hfits, readOctal_mtime hfits]
  simp only [Option.bind_eq_bind, Option.bind_some]
  rw [if_pos hroom, hcontents, hrest]
  cases readEntries fuel rest with
  | none => rfl
  | some found => rfl

-- The end marker is read where no entry is left.
theorem readEntries_end (fuel : Nat) : readEntries (fuel + 1) (zeros (2 * block)) = some ([], []) := by
  have htake : (zeros (2 * block)).take (2 * block) = zeros (2 * block) :=
    List.take_of_length_le (Nat.le_of_eq (length_zeros _))
  have hdrop : (zeros (2 * block)).drop (2 * block) = [] :=
    List.drop_eq_nil_of_le (Nat.le_of_eq (length_zeros _))
  rw [readEntries_succ, if_pos htake, hdrop]

theorem readEntries_records {entries : List Entry}
    (hfits : ∀ e ∈ entries, (Fields.signed (Utf8.encode e.path) e.contents.length e.mtime).Fits)
    (hnul : ∀ e ∈ entries, '\x00' ∉ e.path) {fuel : Nat} (hfuel : entries.length < fuel) :
    readEntries fuel (entries.flatMap record ++ zeros (2 * block)) = some (entries, []) := by
  induction entries generalizing fuel with
  | nil =>
      obtain ⟨n, rfl⟩ := Nat.exists_eq_add_of_lt hfuel
      exact readEntries_end _
  | cons e entries ih =>
      obtain ⟨n, rfl⟩ := Nat.exists_eq_add_of_lt hfuel
      rw [List.flatMap_cons, List.append_assoc,
        readEntries_record (hfits e List.mem_cons_self) (hnul e List.mem_cons_self),
        ih (fun e' he' => hfits e' (List.mem_cons_of_mem e he'))
          (fun e' he' => hnul e' (List.mem_cons_of_mem e he')) (by rw [List.length_cons]; omega)]
      rfl

end Reading

section Archives

-- Calls of `append` that all succeed, one after the other.
inductive Appends : TarWriter → List Entry → TarWriter → Prop where
  | nil (tar : TarWriter) : Appends tar [] tar
  | cons {tar tar' tar'' : TarWriter} {e : Entry} {entries : List Entry}
      (happend : tar.append e.path e.contents e.mtime = some (tar', .ok ()))
      (hrest : Appends tar' entries tar'') : Appends tar (e :: entries) tar''

theorem append_ok {tar tar' : TarWriter} {e : Entry}
    (h : tar.append e.path e.contents e.mtime = some (tar', .ok ())) :
    isRefused e.path ≠ true ∧ e.Fits ∧ tar' = ⟨tar.out ++ record e⟩ := by
  by_cases hpath : isRefused e.path = true
  · rw [append_refused tar e hpath] at h
    cases h
  · rw [append_eq tar e hpath] at h
    by_cases hfits : e.Fits
    · rw [if_pos hfits] at h
      exact ⟨hpath, hfits, (congrArg Prod.fst (Option.some.inj h)).symm⟩
    · rw [if_neg hfits] at h
      cases h

theorem Appends.out {tar tar' : TarWriter} {entries : List Entry} (h : Appends tar entries tar') :
    tar'.out = tar.out ++ entries.flatMap record ∧
      ∀ e ∈ entries, (Fields.signed (Utf8.encode e.path) e.contents.length e.mtime).Fits := by
  induction h with
  | nil tar => exact ⟨(List.append_nil _).symm, fun e he => absurd he List.not_mem_nil⟩
  | @cons tar tar' tar'' e entries happend hrest ih =>
      obtain ⟨hpath, hfits, rfl⟩ := append_ok happend
      refine ⟨?_, ?_⟩
      · rw [ih.1, List.flatMap_cons, List.append_assoc]
      · intro e' he'
        obtain rfl | he' := List.mem_cons.mp he'
        · exact record_fits hpath hfits
        · exact ih.2 e' he'

theorem length_records {entries : List Entry}
    (hfits : ∀ e ∈ entries, (Fields.signed (Utf8.encode e.path) e.contents.length e.mtime).Fits) :
    block ∣ (entries.flatMap record).length ∧
      entries.length * block ≤ (entries.flatMap record).length := by
  induction entries with
  | nil => exact ⟨Nat.dvd_zero _, Nat.le_of_eq (Nat.zero_mul _)⟩
  | cons e entries ih =>
      obtain ⟨hdvd, hle⟩ := ih fun e' he' => hfits e' (List.mem_cons_of_mem e he')
      have hlen := length_record (hfits e List.mem_cons_self)
      have hstored : block ∣ stored e.contents.length := Nat.dvd_mul_left ..
      rw [List.flatMap_cons, List.length_append, hlen]
      refine ⟨Nat.dvd_add (Nat.dvd_add (Nat.dvd_refl _) hstored) hdvd, ?_⟩
      rw [List.length_cons, Nat.succ_mul]
      omega

-- What was appended is read back, up to the marker and not beyond it.
theorem readArchive_appended {tar : TarWriter} {entries : List Entry} (hrun : Appends ⟨[]⟩ entries tar)
    (hnul : ∀ e ∈ entries, '\x00' ∉ e.path) :
    block ∣ tar.finish.length ∧ readArchive tar.finish = some (entries, []) := by
  obtain ⟨hout, hfits⟩ := hrun.out
  obtain ⟨hdvd, hle⟩ := length_records hfits
  have hfinish : tar.finish = entries.flatMap record ++ zeros (2 * block) := by
    unfold TarWriter.finish
    rw [hout]
    rfl
  have hlen : tar.finish.length = (entries.flatMap record).length + 2 * block := by
    rw [hfinish, List.length_append, length_zeros]
  refine ⟨?_, ?_⟩
  · rw [hlen]
    exact Nat.dvd_add hdvd (Nat.dvd_mul_left ..)
  · have hfuel : entries.length < tar.finish.length / block := by
      rw [hlen]
      apply (Nat.lt_div_iff_mul_lt (by decide)).mpr
      unfold block at hle ⊢
      omega
    unfold readArchive
    rw [hfinish] at hfuel ⊢
    exact readEntries_records hfits hnul hfuel

-- Contents that look like the end of an archive, and a name of no letters.
def markers : List Entry := [⟨"report.txt".toList, zeros (2 * block), 1_700_000_000⟩, ⟨[], [], 0⟩]

theorem readArchive_markers : ∃ tar, Appends ⟨[]⟩ markers tar ∧ block ∣ tar.finish.length ∧
    readArchive tar.finish = some (markers, []) := by
  have hreport : (Entry.mk "report.txt".toList (zeros (2 * block)) 1_700_000_000).Fits :=
    ⟨by rw [length_zeros]; decide, by decide⟩
  have hempty : (Entry.mk [] [] 0).Fits := by decide
  have hfirst := (append_eq ⟨[]⟩ _ (by decide)).trans (if_pos hreport)
  have hsecond := (append_eq ⟨[] ++ record ⟨"report.txt".toList, zeros (2 * block), 1_700_000_000⟩⟩ _
    (by decide)).trans (if_pos hempty)
  have hrun := Appends.cons hfirst (Appends.cons hsecond (Appends.nil _))
  exact ⟨_, hrun, readArchive_appended hrun (by decide)⟩

end Archives

end VMForge.Cli
