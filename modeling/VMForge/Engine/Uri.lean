import VMForge.Base.Shell
import VMForge.Engine.Lemmas

namespace VMForge.Engine

open Shell

-- The texts behind `exec:`, which QEMU hands to a shell.
def migrateExec (stateFile : String) : List Char := "cat > ".toList ++ stateFile.toList

def incomingExec (stateFile : String) : List Char := "cat ".toList ++ stateFile.toList

def Command.stateFile : Command → Option String
  | .migrate stateFile => some stateFile
  | .migrateIncoming stateFile => some stateFile
  | _ => none

-- The files `cat` reads. An argument with a dash in front is an option, or the standard input.
def catInputs (args : List (List Char)) : Option (List (List Char)) :=
  if args.any (·.head? == some '-') then none else some args

-- The shell runs `cat`, and nothing else, from the guest to the state file or back.
def Command.Survives : Command → Prop
  | .migrate stateFile =>
      Shell.read (migrateExec stateFile) = some ⟨["cat".toList], [stateFile.toList]⟩
  | .migrateIncoming stateFile =>
      ∃ args, Shell.read (incomingExec stateFile) = some ⟨"cat".toList :: args, []⟩ ∧
        catInputs args = some [stateFile.toList]
  | _ => True

-- The shell gives no character of the path a meaning.
def Command.Spared : Command → Prop
  | .migrate stateFile => Literal stateFile.toList
  | .migrateIncoming stateFile =>
      Literal stateFile.toList ∧ (∀ c ∈ stateFile.toList, c ∉ ['*', '?', '[']) ∧
        stateFile.toList.head? ≠ some '-'
  | _ => True

theorem cat_program : Program "cat".toList where
  literal := ⟨by decide, by decide, by decide, by decide⟩
  pattern := by decide
  assignment := by decide
  reserved := by decide

theorem survives_iff (c : Command) : c.Survives ↔ c.Spared := by
  cases c with
  | migrate stateFile => exact read_output_iff cat_program (by decide)
  | migrateIncoming stateFile =>
      have hread := @read_argument_iff "cat ".toList stateFile.toList "cat".toList cat_program
        (by decide)
      constructor
      · rintro ⟨args, hjob, hinputs⟩
        unfold catInputs at hinputs
        split at hinputs
        · cases hinputs
        · rename_i hdash
          obtain rfl := Option.some.inj hinputs
          obtain ⟨hliteral, hpattern⟩ := hread.mp hjob
          refine ⟨hliteral, hpattern, fun hhead => hdash ?_⟩
          simp [hhead]
      · rintro ⟨hliteral, hpattern, hhead⟩
        refine ⟨[stateFile.toList], hread.mpr ⟨hliteral, hpattern⟩, ?_⟩
        unfold catInputs
        rw [if_neg]
        simpa using hhead
  | cont | stop | queryStatus | queryMigrate | quit | blockdevSnapshotSync _ _ _ => exact Iff.rfl

-- A name in a directory is behind the directory's path, and a slash at most.
theorem join_toList (dir : String) {n : String} (hrel : Path.isAbsolute n = false) :
    ∃ sep, (∀ c ∈ sep, c = '/') ∧ (join dir n).toList = dir.toList ++ (sep ++ n.toList) := by
  unfold join
  rw [if_neg (by simp [hrel])]
  split
  · exact ⟨[], by simp, by simp⟩
  · exact ⟨['/'], by simp, by simp⟩

-- Behind a directory whose path the shell leaves alone, a name of harmless characters is as good.
theorem spared_join {dir n : String} (hdir : Literal dir.toList)
    (hn : ∀ c ∈ n.toList, isBare c = true) (hrel : Path.isAbsolute n = false) :
    (Command.migrate (join dir n)).Spared := by
  obtain ⟨c, cs, hc⟩ := List.exists_cons_of_ne_nil hdir.ne_nil
  obtain ⟨sep, hsep, hjoin⟩ := join_toList dir hrel
  have hhash := hdir.hash
  have htilde := hdir.tilde
  rw [hc] at hhash htilde
  show Literal (join dir n).toList
  rw [hjoin]
  refine ⟨by simp [hc], fun d hd => ?_, by rw [hc]; exact hhash, by rw [hc]; exact htilde⟩
  obtain hd | hd := List.mem_append.mp hd
  · exact hdir.bare d hd
  · obtain hd | hd := List.mem_append.mp hd
    · rw [hsep d hd]
      decide
    · exact hn d hd

-- So it is where the shell reads from, unless there is a pattern or a dash in front.
theorem spared_join_incoming {dir n : String} (hdir : Literal dir.toList)
    (hpattern : ∀ c ∈ dir.toList, c ∉ ['*', '?', '[']) (hdash : dir.toList.head? ≠ some '-')
    (hn : ∀ c ∈ n.toList, isBare c = true ∧ c ∉ ['*', '?', '[']) (hrel : Path.isAbsolute n = false) :
    (Command.migrateIncoming (join dir n)).Spared := by
  obtain ⟨c, cs, hc⟩ := List.exists_cons_of_ne_nil hdir.ne_nil
  obtain ⟨sep, hsep, hjoin⟩ := join_toList dir hrel
  refine ⟨spared_join hdir (fun c hc => (hn c hc).1) hrel, ?_, ?_⟩
  · rw [hjoin]
    intro d hd
    obtain hd | hd := List.mem_append.mp hd
    · exact hpattern d hd
    · obtain hd | hd := List.mem_append.mp hd
      · rw [hsep d hd]
        decide
      · exact (hn d hd).2
  · rw [hc] at hdash
    rw [hjoin, hc]
    exact hdash

end VMForge.Engine
