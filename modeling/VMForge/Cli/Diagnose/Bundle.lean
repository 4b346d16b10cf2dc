import VMForge.Cli.Diagnose.Listing
import VMForge.Cli.Redact.Growth
import VMForge.Cli.Tarball.RoundTrip

namespace VMForge.Cli

open Text

section Code

def logEntry (vm : VmReport) (log : VmLog) : List Char :=
  ("vms/" ++ vm.name ++ "/logs/" ++ log.fileName).toList

-- The report, then each log of each VM.
def bundleEntries (report : List Char) (vms : List VmReport) (mtime : Nat) : List Entry :=
  ⟨"report.txt".toList, Utf8.encode report, mtime⟩ :: vms.flatMap fun vm => vm.logs.map fun log =>
    ⟨logEntry vm log, Utf8.encode log.excerpt, mtime⟩

-- `tar.append(..)?`, one after the other. None is a panic.
def appendEach : TarWriter → List Entry → Option (Except (List Char) TarWriter)
  | tar, [] => some (.ok tar)
  | tar, e :: rest => do
      match ← tar.append e.path e.contents e.mtime with
      | (_, .error message) => return .error message
      | (tar, .ok ()) => appendEach tar rest

-- What is written to a file that takes everything.
def writeTarBundle (report : List Char) (vms : List VmReport) (mtime : Nat) :
    Option (Except (List Char) (List UInt8)) := do
  let tar ← appendEach ⟨[]⟩ (bundleEntries report vms mtime)
  return tar.map TarWriter.finish

end Code

section Writing

theorem appendEach_iff {tar tar' : TarWriter} {entries : List Entry} :
    appendEach tar entries = some (.ok tar') ↔ Appends tar entries tar' := by
  constructor
  · intro h
    induction entries generalizing tar with
    | nil =>
        cases h
        exact Appends.nil tar'
    | cons e rest ih =>
        unfold appendEach at h
        cases hrun : tar.append e.path e.contents e.mtime with
        | none =>
            rw [hrun] at h
            cases h
        | some result =>
            obtain ⟨next, message | _⟩ := result
            · rw [hrun] at h
              cases h
            · rw [hrun] at h
              exact Appends.cons hrun (ih h)
  · intro h
    induction h with
    | nil tar => rfl
    | cons happend hrest ih =>
        unfold appendEach
        rw [happend]
        exact ih

-- Entries are all appended if none of them is refused or too large.
theorem appends_iff {entries : List Entry} (tar : TarWriter) :
    (∃ tar', Appends tar entries tar') ↔ ∀ e ∈ entries, isRefused e.path ≠ true ∧ e.Fits := by
  induction entries generalizing tar with
  | nil => exact iff_of_true ⟨tar, Appends.nil tar⟩ fun e he => absurd he List.not_mem_nil
  | cons e rest ih =>
      constructor
      · rintro ⟨tar', h⟩
        cases h with
        | cons happend hrest =>
            obtain ⟨hpath, hfits, -⟩ := append_ok happend
            exact List.forall_mem_cons.mpr ⟨⟨hpath, hfits⟩, (ih _).mp ⟨tar', hrest⟩⟩
      · intro h
        obtain ⟨⟨hpath, hfits⟩, hrest⟩ := List.forall_mem_cons.mp h
        obtain ⟨tar', hrun⟩ := (ih ⟨tar.out ++ record e⟩).mpr hrest
        refine ⟨tar', Appends.cons ?_ hrun⟩
        rw [append_eq tar e hpath, if_pos hfits]

-- What was appended to nothing is read back.
theorem Appends.read {tar : TarWriter} {entries : List Entry} (h : Appends ⟨[]⟩ entries tar)
    (hnul : ∀ e ∈ entries, '\x00' ∉ e.path) : readArchive tar.finish = some (entries, []) := by
  obtain ⟨hout, hfits⟩ := h.out
  obtain ⟨-, hle⟩ := length_records hfits
  have hfinish : tar.finish = entries.flatMap record ++ zeros (2 * block) := by
    unfold TarWriter.finish
    rw [hout]
    rfl
  have hfuel : entries.length < (entries.flatMap record ++ zeros (2 * block)).length / block := by
    rw [List.length_append, length_zeros]
    apply (Nat.lt_div_iff_mul_lt (by decide)).mpr
    unfold block at hle ⊢
    omega
  rw [hfinish]
  exact readEntries_records hfits hnul hfuel

end Writing

section Entries

-- Reports as they are collected: each VM is a directory of its own, and each log a file.
structure Collected (vms : List VmReport) : Prop where
  nodup : (vms.map VmReport.name).Nodup
  legal : ∀ vm ∈ vms, Path.isComponent vm.name = true
  logs : ∀ vm ∈ vms, ∀ log ∈ vm.logs, Path.isComponent log.fileName = true

theorem notMem_of_isComponent {n : String} (h : Path.isComponent n = true) :
    '/' ∉ n.toList ∧ '\x00' ∉ n.toList :=
  ((Path.isComponent_iff n).mp h).2.2.2

theorem logEntry_eq (vm : VmReport) (log : VmLog) :
    logEntry vm log = "vms/".toList ++ (vm.name.toList ++ '/' :: ("logs/".toList ++ log.fileName.toList)) := by
  simp [logEntry]

-- The VM and the file are read off an entry's name.
theorem logEntry_inj {vm vm' : VmReport} {log log' : VmLog} (hvm : Path.isComponent vm.name = true)
    (hvm' : Path.isComponent vm'.name = true) (h : logEntry vm log = logEntry vm' log') :
    vm.name = vm'.name ∧ log.fileName = log'.fileName := by
  rw [logEntry_eq, logEntry_eq] at h
  have hrest := List.append_cancel_left h
  have hsplit := congrArg Path.splitSlash hrest
  rw [Path.splitSlash_append_slash _ _ (notMem_of_isComponent hvm).1,
    Path.splitSlash_append_slash _ _ (notMem_of_isComponent hvm').1] at hsplit
  have hname := (List.cons.inj hsplit).1
  rw [hname] at hrest
  have hfile := List.append_cancel_left (List.cons.inj (List.append_cancel_left hrest)).2
  exact ⟨String.toList_inj.mp hname, String.toList_inj.mp hfile⟩

theorem logEntry_ne_report (vm : VmReport) (log : VmLog) : logEntry vm log ≠ "report.txt".toList := by
  rw [logEntry_eq]
  intro h
  exact absurd (congrArg List.head? h) (by simp)

theorem logEntry_slash (vm : VmReport) (log : VmLog) : (logEntry vm log).head? ≠ some '/' := by
  rw [logEntry_eq]
  simp

-- The names of the entries of a bundle, in order.
theorem bundle_paths (report : List Char) (vms : List VmReport) (mtime : Nat) :
    (bundleEntries report vms mtime).map Entry.path =
      "report.txt".toList :: vms.flatMap fun vm => vm.logs.map (logEntry vm) := by
  simp only [bundleEntries, List.map_cons, List.map_flatMap, List.map_map]
  rfl

-- Entries have names of their own if no VM has two logs of one name.
theorem Collected.paths_nodup_iff {vms : List VmReport} (h : Collected vms) (report : List Char)
    (mtime : Nat) : ((bundleEntries report vms mtime).map Entry.path).Nodup ↔
      ∀ vm ∈ vms, (vm.logs.map VmLog.fileName).Nodup := by
  have hone : ∀ vm ∈ vms, (vm.logs.map (logEntry vm)).Nodup ↔ (vm.logs.map VmLog.fileName).Nodup := by
    intro vm hvm
    have hmap : vm.logs.map (logEntry vm) = (vm.logs.map VmLog.fileName).map fun fileName =>
        logEntry vm ⟨fileName, []⟩ := by
      rw [List.map_map]
      rfl
    rw [hmap, List.nodup_map_iff]
    intro a b heq
    exact (logEntry_inj (h.legal vm hvm) (h.legal vm hvm) heq).2
  have hreport : "report.txt".toList ∉ vms.flatMap fun vm => vm.logs.map (logEntry vm) := by
    intro hmem
    obtain ⟨vm, -, hlog⟩ := List.mem_flatMap.mp hmem
    obtain ⟨log, -, heq⟩ := List.mem_map.mp hlog
    exact logEntry_ne_report vm log heq
  rw [bundle_paths, List.nodup_cons, List.nodup_flatMap]
  constructor
  · rintro ⟨-, heach, -⟩ vm hvm
    exact (hone vm hvm).mp (heach vm hvm)
  · intro heach
    refine ⟨hreport, fun vm hvm => (hone vm hvm).mpr (heach vm hvm), ?_⟩
    -- logs of different VMs
    have hapart := List.pairwise_map.mp h.nodup
    refine List.Pairwise.imp_of_mem (fun hvm hvm' hne entry hentry hentry' => ?_) hapart
    obtain ⟨log, -, rfl⟩ := List.mem_map.mp hentry
    obtain ⟨log', -, heq⟩ := List.mem_map.mp hentry'
    exact hne (logEntry_inj (h.legal _ hvm) (h.legal _ hvm') heq.symm).1

theorem Collected.paths_clean {vms : List VmReport} (h : Collected vms) (report : List Char)
    (mtime : Nat) : ∀ e ∈ bundleEntries report vms mtime, '\x00' ∉ e.path := by
  intro e he
  obtain rfl | he := List.mem_cons.mp he
  · exact (by decide : '\x00' ∉ "report.txt".toList)
  · obtain ⟨vm, hvm, he⟩ := List.mem_flatMap.mp he
    obtain ⟨log, hlog, rfl⟩ := List.mem_map.mp he
    have hname := (notMem_of_isComponent (h.legal vm hvm)).2
    have hfile := (notMem_of_isComponent (h.logs vm hvm log hlog)).2
    show '\x00' ∉ logEntry vm log
    rw [logEntry_eq]
    simp [hname, hfile]

end Entries

section Collecting

variable {machine : Machine} {filter : Option String} {vms : List VmReport}

theorem mem_logFiles {fs : FileSystem (List UInt8)} {vmDir p : Path} (h : p ∈ logFiles fs vmDir) :
    Path.isComponent (Path.name p) = true := by
  obtain ⟨dir, -, hp⟩ := List.mem_flatMap.mp h
  obtain ⟨hp, -⟩ := List.mem_filter.mp hp
  obtain ⟨n, hn, rfl⟩ := List.mem_map.mp hp
  rw [Path.name_concat]
  exact fs.legal _ _ (mem_entriesOf.mp hn)

-- A log that is collected is what is kept of a file.
theorem mem_collectLogs {fs : FileSystem (List UInt8)} {vmDir : Path} {log : VmLog}
    (h : log ∈ collectLogs fs vmDir) :
    Path.isComponent log.fileName = true ∧ byteLen log.excerpt < 8 ^ 11 := by
  obtain ⟨p, hp, hlog⟩ := List.mem_filterMap.mp h
  have hfile := mem_logFiles ((List.mem_insertionSort _).mp (List.mem_of_mem_take hp))
  obtain ⟨text, htext, rfl⟩ := Option.map_eq_some_iff.mp hlog
  obtain ⟨content, -, hexcerpt⟩ := Option.bind_eq_some_iff.mp htext
  exact ⟨hfile, byteLen_excerpt hexcerpt⟩

theorem vmNames_nodup (machine : Machine) : (vmNames machine).Nodup := by
  unfold vmNames
  rw [(List.perm_insertionSort _ _).nodup_iff]
  refine List.Nodup.filter _ ?_
  unfold entriesOf
  split
  · exact FileSystem.children_nodup _ _
  · exact List.nodup_nil

-- The VMs that are reported, each under its name.
theorem collectVms_ok (h : collectVms machine filter = .ok vms) :
    ∃ names : List String, names.Sublist (vmNames machine) ∧ vms = names.map (collectVm machine) := by
  unfold collectVms at h
  cases filter with
  | none =>
      cases h
      exact ⟨_, List.Sublist.refl _, rfl⟩
  | some wanted =>
      simp only at h
      split at h
      · cases h
        exact ⟨_, List.filter_sublist, rfl⟩
      · cases h

theorem collectVms_collected (h : collectVms machine filter = .ok vms) :
    Collected vms ∧ ∀ vm ∈ vms, ∀ log ∈ vm.logs, byteLen log.excerpt < 8 ^ 11 := by
  obtain ⟨names, hsub, rfl⟩ := collectVms_ok h
  have hnames : (names.map (collectVm machine)).map VmReport.name = names := by
    rw [List.map_map]
    exact List.map_id names
  refine ⟨⟨?_, ?_, ?_⟩, ?_⟩
  · rw [hnames]
    exact hsub.nodup (vmNames_nodup machine)
  · intro vm hvm
    obtain ⟨name, hname, rfl⟩ := List.mem_map.mp hvm
    have hmem := (List.mem_insertionSort _).mp (hsub.subset hname)
    exact machine.fs.legal _ _ (mem_entriesOf.mp (List.mem_filter.mp hmem).1)
  · intro vm hvm log hlog
    obtain ⟨name, -, rfl⟩ := List.mem_map.mp hvm
    exact (mem_collectLogs hlog).1
  · intro vm hvm log hlog
    obtain ⟨name, -, rfl⟩ := List.mem_map.mp hvm
    exact (mem_collectLogs hlog).2

-- The bundle is written, and a reader finds in it the report and each log, under a name of its own.
def HoldsLogs (report : List Char) (vms : List VmReport) (mtime : Nat) : Prop :=
  ∃ bytes, writeTarBundle report vms mtime = some (.ok bytes) ∧
    readArchive bytes = some (bundleEntries report vms mtime, []) ∧
    ((bundleEntries report vms mtime).map Entry.path).Nodup

theorem written_iff {report : List Char} {mtime : Nat} :
    (∃ bytes, writeTarBundle report vms mtime = some (.ok bytes)) ↔
      ∃ tar, Appends ⟨[]⟩ (bundleEntries report vms mtime) tar := by
  unfold writeTarBundle
  constructor
  · rintro ⟨bytes, h⟩
    obtain ⟨result, hrun, hdone⟩ := Option.bind_eq_some_iff.mp h
    cases result with
    | error message => cases hdone
    | ok tar => exact ⟨tar, appendEach_iff.mp hrun⟩
  · rintro ⟨tar, hrun⟩
    exact ⟨tar.finish, by rw [appendEach_iff.mpr hrun]; rfl⟩

-- The entries are all written if the names and the numbers fit.
theorem bundle_fits_iff {report : List Char} {mtime : Nat} :
    (∀ e ∈ bundleEntries report vms mtime, isRefused e.path ≠ true ∧ e.Fits) ↔
      (byteLen report < 8 ^ 11 ∧ mtime < 8 ^ 11) ∧ ∀ vm ∈ vms, ∀ log ∈ vm.logs,
        byteLen (logEntry vm log) ≤ 100 ∧ byteLen log.excerpt < 8 ^ 11 ∧ mtime < 8 ^ 11 := by
  have hlog : ∀ vm log, isRefused (logEntry vm log) ≠ true ↔ byteLen (logEntry vm log) ≤ 100 := by
    intro vm log
    rw [ne_eq, isRefused_iff, length_encode]
    have hslash := logEntry_slash vm log
    constructor
    · intro h
      exact Nat.not_lt.mp fun hlong => h (Or.inl hlong)
    · rintro hle (hlong | hhead)
      · omega
      · exact hslash hhead
  have hreport : isRefused "report.txt".toList = false := by decide
  unfold bundleEntries
  simp only [List.forall_mem_cons, List.forall_mem_flatMap, List.forall_mem_map, hlog, Entry.Fits,
    length_encode, hreport, ne_eq, Bool.false_eq_true, not_false_eq_true, true_and]

-- The bundle is complete if no VM has two logs of one name, the names fit their fields, and so do
-- the numbers.
def BundleFits (report : List Char) (vms : List VmReport) (mtime : Nat) : Prop :=
  (∀ vm ∈ vms, (vm.logs.map VmLog.fileName).Nodup) ∧
    (∀ vm ∈ vms, ∀ log ∈ vm.logs, byteLen (logEntry vm log) ≤ 100) ∧
    byteLen report < 8 ^ 11 ∧ mtime < 8 ^ 11

theorem Collected.holds_iff (h : Collected vms)
    (hexcerpts : ∀ vm ∈ vms, ∀ log ∈ vm.logs, byteLen log.excerpt < 8 ^ 11) (report : List Char)
    (mtime : Nat) : HoldsLogs report vms mtime ↔ BundleFits report vms mtime := by
  have hwritten : (∃ bytes, writeTarBundle report vms mtime = some (.ok bytes)) ↔
      (byteLen report < 8 ^ 11 ∧ mtime < 8 ^ 11) ∧ ∀ vm ∈ vms, ∀ log ∈ vm.logs,
        byteLen (logEntry vm log) ≤ 100 ∧ byteLen log.excerpt < 8 ^ 11 ∧ mtime < 8 ^ 11 := by
    rw [written_iff, appends_iff, bundle_fits_iff]
  constructor
  · rintro ⟨bytes, hbytes, -, hnodup⟩
    obtain ⟨hfits, hlogs⟩ := hwritten.mp ⟨bytes, hbytes⟩
    exact ⟨(h.paths_nodup_iff report mtime).mp hnodup,
      fun vm hvm log hlog => (hlogs vm hvm log hlog).1, hfits⟩
  · rintro ⟨hnodup, hnames, hfits⟩
    obtain ⟨tar, hrun⟩ := written_iff.mp (hwritten.mpr ⟨hfits, fun vm hvm log hlog =>
      ⟨hnames vm hvm log hlog, hexcerpts vm hvm log hlog, hfits.2⟩⟩)
    refine ⟨tar.finish, ?_, hrun.read (h.paths_clean report mtime),
      (h.paths_nodup_iff report mtime).mpr hnodup⟩
    unfold writeTarBundle
    rw [appendEach_iff.mpr hrun]
    rfl

theorem bundle_holds_logs_iff (h : collectVms machine filter = .ok vms) (report : List Char)
    (mtime : Nat) : HoldsLogs report vms mtime ↔ BundleFits report vms mtime :=
  have hcollected := collectVms_collected h
  hcollected.1.holds_iff hcollected.2 report mtime

end Collecting

section Twice

-- A VM whose directory has logs of the given names, all empty.
def loggedVm (logs : List Path) : Machine where
  fs := logs.foldl (fun fs p => fs.put (["srv", "vms", "web"] ++ p) (.file ⟨[], 0o644⟩))
    ((((noFiles.put ["srv"] .dir).put ["srv", "vms"] .dir).put ["srv", "vms", "web"] .dir).put
      ["srv", "vms", "web", "logs"] .dir)
  home := ["srv"]
  storageCli _ := none
  dirSize _ := 0

theorem excerpt_nil : excerpt [] = some (redactText ['\n']) := by
  have hread : Utf8.decode (([] : List UInt8).drop (([] : List UInt8).length - logTailBytes)) = some [] :=
    Utf8.decode_encode []
  unfold excerpt tailFile
  rw [hread]
  rfl

theorem collectVms_loggedVm {logs files : List Path} (hnames : vmNames (loggedVm logs) = ["web"])
    (hfiles : ((logFiles (loggedVm logs).fs ["srv", "vms", "web"]).insertionSort (· ≤ ·)).take logsPerVm =
      files)
    (hempty : ∀ p ∈ files, (loggedVm logs).fs.blob p = some []) :
    ∃ body, collectVms (loggedVm logs) none =
      .ok [⟨"web", body, files.map fun p => ⟨Path.name p, redactText ['\n']⟩⟩] := by
  have hlogs : collectLogs (loggedVm logs).fs ["srv", "vms", "web"] =
      files.map fun p => ⟨Path.name p, redactText ['\n']⟩ := by
    unfold collectLogs
    rw [hfiles, List.filterMap_eq_map_iff_forall_eq_some]
    intro p hp
    unfold collectLog
    rw [hempty p hp, Option.bind_some, excerpt_nil, Option.map_some]
  refine ⟨(collectVm (loggedVm logs) "web").body, ?_⟩
  unfold collectVms
  rw [hnames, ← hlogs]
  rfl

theorem bundle_holds_logs_serial : ∃ vms, collectVms (loggedVm [["serial.log"], ["logs", "qemu.log"]]) none =
    .ok vms ∧ HoldsLogs [] vms 1_700_000_000 := by
  obtain ⟨body, hvms⟩ := @collectVms_loggedVm [["serial.log"], ["logs", "qemu.log"]]
    [["srv", "vms", "web", "logs", "qemu.log"], ["srv", "vms", "web", "serial.log"]] (by decide)
    (by decide) (by decide)
  refine ⟨_, hvms, (bundle_holds_logs_iff hvms [] _).mpr ⟨fun vm hvm => ?_, fun vm hvm log hlog => ?_,
    by decide⟩⟩
  · obtain rfl := List.mem_singleton.mp hvm
    exact (by decide : ["qemu.log", "serial.log"].Nodup)
  · obtain rfl := List.mem_singleton.mp hvm
    obtain rfl | rfl : log = _ ∨ log = _ := by simpa using hlog
    · exact (by decide : byteLen "vms/web/logs/qemu.log".toList ≤ 100)
    · exact (by decide : byteLen "vms/web/logs/serial.log".toList ≤ 100)

-- Two logs of one name, from the two directories of a VM.
theorem bundle_repeats_entry : ∃ vms, collectVms (loggedVm [["serial.log"], ["logs", "serial.log"]]) none =
    .ok vms ∧ ¬HoldsLogs [] vms 1_700_000_000 := by
  obtain ⟨body, hvms⟩ := @collectVms_loggedVm [["serial.log"], ["logs", "serial.log"]]
    [["srv", "vms", "web", "logs", "serial.log"], ["srv", "vms", "web", "serial.log"]] (by decide)
    (by decide) (by decide)
  obtain ⟨hcollected, hexcerpts⟩ := collectVms_collected hvms
  refine ⟨_, hvms, fun h => ?_⟩
  have hnodup : ["serial.log", "serial.log"].Nodup :=
    ((hcollected.holds_iff hexcerpts [] _).mp h).1 _ List.mem_cons_self
  exact absurd hnodup (by decide)

end Twice

end VMForge.Cli
