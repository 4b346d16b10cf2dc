import VMForge.Engine.Invocation
import VMForge.Base.OptionText

namespace VMForge.Engine

open VMForge.Core OptionText

-- The command line behind the name of the program.
def Invocation.argv (inv : Invocation) : List String := inv.args.flatMap Arg.words

-- Of the options in use only `-S` stands alone.
def takesArgument (option : String) : Bool := option != "-S"

-- How QEMU goes through its command line: an option and, but for a flag, its argument.
def readOptions : List String → List (String × Option String)
  | [] => []
  | [option] => [(option, none)]
  | option :: argument :: rest =>
      if takesArgument option = true then (option, some argument) :: readOptions rest
      else (option, none) :: readOptions (argument :: rest)

-- The arguments that a command line has for an option, in order.
def argumentsOf (option : String) (argv : List String) : List (Option String) :=
  ((readOptions argv).filter (·.1 == option)).map (·.2)

def setting (key : String) (value : List Char) : Setting := ⟨key.toList, some value⟩

-- `-name`: the key `guest` is understood.
def readName (argument : String) : List Setting := settings (some "guest".toList) argument.toList

def readBlockdev (argument : String) : List Setting := settings none argument.toList

-- `-qmp`: behind the kind of the socket its path, whose key is understood.
def readQmp (argument : String) : Option (List Setting) :=
  if "unix:".toList.isPrefixOf argument.toList = true then
    some (settings (some "path".toList) (argument.toList.drop 5))
  else none

def diskSettings (disk : String) (i : Nat) : List Setting :=
  [setting "driver" "qcow2".toList, setting "node-name" (nodeName i).toList,
    setting "file.driver" "file".toList, setting "file.filename" disk.toList]

def qmpSettings (qmpSocket : String) : List Setting :=
  [setting "path" qmpSocket.toList, setting "server" "on".toList, setting "wait" "off".toList]

-- What a command line means by its disks, its control socket and its name.
structure Means (argv : List String) (config : VmConfig) (qmpSocket : String) : Prop where
  blockdev : (argumentsOf "-blockdev" argv).map (·.map readBlockdev) =
    config.disks.zipIdx.map fun (disk, i) => some (diskSettings disk i)
  qmp : (argumentsOf "-qmp" argv).map (·.bind readQmp) = [some (qmpSettings qmpSocket)]
  name : (argumentsOf "-name" argv).map (·.map readName) =
    [some [setting "guest" config.name.toList]]

section Reading

-- What QEMU reads in the words of one argument.
def Arg.options : Arg → List (String × Option String)
  | .flag name => [(name, none)]
  | .opt name value => [(name, some value)]
  | .disk nodeName filename =>
      [("-blockdev", some ("driver=qcow2,node-name=" ++ nodeName ++
          ",file.driver=file,file.filename=" ++ filename)),
        ("-device", some ("virtio-blk-pci,drive=" ++ nodeName))]

-- Flags and options are told apart by their names.
def Arg.Regular : Arg → Prop
  | .flag name => takesArgument name = false
  | .opt name _ => takesArgument name = true
  | .disk .. => True

theorem readOptions_words {arg : Arg} (h : arg.Regular) (rest : List String) :
    readOptions (arg.words ++ rest) = arg.options ++ readOptions rest := by
  cases arg with
  | flag name =>
      have hname : takesArgument name = false := h
      cases rest with
      | nil => rfl
      | cons word rest =>
          show readOptions (name :: word :: rest) = (name, none) :: readOptions (word :: rest)
          rw [readOptions, hname]
          rfl
  | opt name value =>
      have hname : takesArgument name = true := h
      show readOptions (name :: value :: rest) = (name, some value) :: readOptions rest
      rw [readOptions, hname]
      rfl
  | disk node filename =>
      have hblockdev : takesArgument "-blockdev" = true := by decide
      have hdevice : takesArgument "-device" = true := by decide
      simp only [Arg.words, Arg.options, List.cons_append, List.nil_append, readOptions, hblockdev,
        hdevice, if_true]

theorem readOptions_args {args : List Arg} (h : ∀ arg ∈ args, arg.Regular) :
    readOptions (args.flatMap Arg.words) = args.flatMap Arg.options := by
  induction args with
  | nil => rfl
  | cons arg args ih =>
      rw [List.flatMap_cons, List.flatMap_cons, readOptions_words (h arg List.mem_cons_self),
        ih fun a ha => h a (List.mem_cons_of_mem arg ha)]

-- What an argument says for an option.
def Arg.argumentsOf (option : String) (arg : Arg) : List (Option String) :=
  (arg.options.filter (·.1 == option)).map (·.2)

theorem argumentsOf_args {args : List Arg} (h : ∀ arg ∈ args, arg.Regular) (option : String) :
    argumentsOf option (args.flatMap Arg.words) = args.flatMap (Arg.argumentsOf option) := by
  unfold argumentsOf
  rw [readOptions_args h, List.filter_flatMap, List.map_flatMap]
  rfl

end Reading

section Building

variable {ρ : Type} {site : Site ρ} {config : VmConfig} {accel : Accel} {qmpSocket : String}
  {inv : Invocation}

def blockdevArgument (node disk : String) : String :=
  "driver=qcow2,node-name=" ++ node ++ ",file.driver=file,file.filename=" ++ disk

theorem buildAarch64Virt_regular (h : buildAarch64Virt site config accel qmpSocket = .ok inv) :
    ∀ arg ∈ inv.args, arg.Regular := by
  unfold buildAarch64Virt at h
  split at h
  · cases h
  · cases h
    intro arg harg
    simp only [List.mem_append] at harg
    obtain (hfixed | hdisk) | hgpu := harg
    · simp only [List.mem_cons, List.not_mem_nil, or_false] at hfixed
      rcases hfixed with rfl | rfl | rfl | rfl | rfl | rfl | rfl | rfl | rfl | rfl | rfl | rfl | rfl |
        rfl | rfl
      all_goals
        show takesArgument _ = _
        decide
    · obtain ⟨⟨disk, i⟩, -, rfl⟩ := List.mem_map.mp hdisk
      trivial
    · split at hgpu
      · obtain rfl := List.mem_singleton.mp hgpu
        show takesArgument _ = _
        decide
      · cases hgpu

theorem argumentsOf_disk (node disk : String) :
    (Arg.disk node disk).argumentsOf "-blockdev" = [some (blockdevArgument node disk)] := by
  have hpick : ∀ blockdev device : Option String,
      (([("-blockdev", blockdev), ("-device", device)] : List (String × Option String)).filter
        (·.1 == "-blockdev")).map (·.2) = [blockdev] := by
    intro blockdev device
    simp
  exact hpick (some (blockdevArgument node disk)) (some ("virtio-blk-pci,drive=" ++ node))

-- The arguments an invocation has for the three options.
theorem buildAarch64Virt_arguments
    (h : buildAarch64Virt site config accel qmpSocket = .ok inv) :
    argumentsOf "-blockdev" inv.argv =
        config.disks.zipIdx.map (fun (disk, i) => some (blockdevArgument (nodeName i) disk)) ∧
      argumentsOf "-qmp" inv.argv = [some s!"unix:{qmpSocket},server=on,wait=off"] ∧
      argumentsOf "-name" inv.argv = [some config.name] := by
  have hregular := buildAarch64Virt_regular h
  unfold Invocation.argv
  rw [argumentsOf_args hregular, argumentsOf_args hregular, argumentsOf_args hregular]
  unfold buildAarch64Virt at h
  split at h
  · cases h
  · cases h
    have hdisks : ∀ option : String, (∀ node disk, (Arg.disk node disk).argumentsOf option = []) →
        (config.disks.zipIdx.map fun (disk, i) => Arg.disk (nodeName i) disk).flatMap
          (Arg.argumentsOf option) = [] := by
      intro option hnone
      rw [List.flatMap_eq_nil_iff]
      intro arg harg
      obtain ⟨⟨disk, i⟩, -, rfl⟩ := List.mem_map.mp harg
      exact hnone (nodeName i) disk
    have hgpu : ∀ option : String, (Arg.opt "-device" "virtio-gpu-pci").argumentsOf option = [] →
        (if config.gpu3d = true then [Arg.opt "-device" "virtio-gpu-pci"] else []).flatMap
          (Arg.argumentsOf option) = [] := by
      intro option hnone
      cases config.gpu3d with
      | false => rfl
      | true => exact (List.append_nil _).trans hnone
    refine ⟨?_, ?_, ?_⟩
    · rw [List.flatMap_append, List.flatMap_append, hgpu "-blockdev" (by simp [Arg.argumentsOf, Arg.options]), List.append_nil,
        List.flatMap_map]
      have hblockdev : (fun p : String × Nat => (Arg.disk (nodeName p.2) p.1).argumentsOf "-blockdev") =
          fun p => [some (blockdevArgument (nodeName p.2) p.1)] := by
        funext p
        exact argumentsOf_disk (nodeName p.2) p.1
      rw [hblockdev, ← List.map_eq_flatMap]
      simp [Arg.argumentsOf, Arg.options]
    · rw [List.flatMap_append, List.flatMap_append, hgpu "-qmp" (by simp [Arg.argumentsOf, Arg.options]),
        hdisks "-qmp" (by simp [Arg.argumentsOf, Arg.options]), List.append_nil, List.append_nil]
      simp [Arg.argumentsOf, Arg.options]
    · rw [List.flatMap_append, List.flatMap_append, hgpu "-name" (by simp [Arg.argumentsOf, Arg.options]),
        hdisks "-name" (by simp [Arg.argumentsOf, Arg.options]), List.append_nil, List.append_nil]
      simp [Arg.argumentsOf, Arg.options]

end Building

section Meaning

theorem nodeName_plain (i : Nat) : ',' ∉ (nodeName i).toList := by
  rw [nodeName_toList, List.mem_append, not_or]
  constructor
  · decide
  · intro hmem
    exact absurd (Nat.isDigit_of_mem_toDigits (by decide) (by decide) hmem) (by decide)

theorem blockdevArgument_toList (node disk : String) :
    (blockdevArgument node disk).toList =
      plain "driver".toList "qcow2".toList ++ ',' :: (plain "node-name".toList node.toList ++ ',' ::
        (plain "file.driver".toList "file".toList ++ ',' ::
          plain "file.filename".toList disk.toList)) := by
  have hopen : "driver=qcow2,node-name=".toList =
      plain "driver".toList "qcow2".toList ++ ',' :: "node-name=".toList := by decide
  have hfile : ",file.driver=file,file.filename=".toList =
      ',' :: (plain "file.driver".toList "file".toList ++ ',' :: "file.filename=".toList) := by
    decide
  have hnode : "node-name=".toList = "node-name".toList ++ ['='] := by decide
  have hname : "file.filename=".toList = "file.filename".toList ++ ['='] := by decide
  unfold blockdevArgument
  simp only [String.toList_append, hopen, hfile, hnode, hname, plain, List.append_assoc,
    List.cons_append, List.nil_append]

theorem readBlockdev_iff (disk : String) (i : Nat) :
    readBlockdev (blockdevArgument (nodeName i) disk) = diskSettings disk i ↔ ',' ∉ disk.toList := by
  unfold readBlockdev diskSettings setting
  rw [blockdevArgument_toList]
  constructor
  · intro h
    have hweight := weight_settings (plain "driver".toList "qcow2".toList ++ ',' ::
      (plain "node-name".toList (nodeName i).toList ++ ',' ::
        (plain "file.driver".toList "file".toList ++ ',' ::
          plain "file.filename".toList disk.toList)))
    rw [h] at hweight
    have hnode := List.count_eq_zero.mpr (nodeName_plain i)
    rw [← List.count_eq_zero]
    simp [weight, plain] at hweight
    omega
  · intro hdisk
    rw [settings_plain_comma (by decide) (by decide) (by simp [plain]),
      settings_plain_comma (by decide) (nodeName_plain i) (by simp [plain]),
      settings_plain_comma (by decide) (by decide) (by simp [plain]),
      settings_plain (by decide) hdisk]

theorem qmpArgument_toList (socket : String) :
    (s!"unix:{socket},server=on,wait=off").toList =
      "unix:".toList ++ (socket.toList ++ ',' :: (plain "server".toList "on".toList ++ ',' ::
        plain "wait".toList "off".toList)) := by
  have htail : ",server=on,wait=off".toList =
      ',' :: (plain "server".toList "on".toList ++ ',' :: plain "wait".toList "off".toList) := by
    decide
  simp only [toString, String.toList_append, htail, List.append_assoc]

theorem readQmp_iff (socket : String) :
    readQmp s!"unix:{socket},server=on,wait=off" = some (qmpSettings socket) ↔
      ',' ∉ socket.toList ∧ '=' ∉ socket.toList := by
  have hunix : "unix:".toList.isPrefixOf ("unix:".toList ++ (socket.toList ++ ',' ::
      (plain "server".toList "on".toList ++ ',' :: plain "wait".toList "off".toList))) = true :=
    List.isPrefixOf_iff_prefix.mpr (List.prefix_append _ _)
  unfold readQmp qmpSettings setting
  rw [qmpArgument_toList, if_pos hunix, List.drop_left' (by decide), Option.some.injEq]
  constructor
  · intro h
    have hkey : ((socket.toList ++ ',' :: (plain "server".toList "on".toList ++ ',' ::
        plain "wait".toList "off".toList)).dropWhile inKey).head? ≠ some '=' := by
      intro hkey
      rw [settings_of_key hkey] at h
      have hweight := weight_settings (socket.toList ++ ',' ::
        (plain "server".toList "on".toList ++ ',' :: plain "wait".toList "off".toList))
      rw [h] at hweight
      simp [weight, plain] at hweight
      omega
    have hweight := weight_understood h hkey
    have hcomma : ',' ∉ socket.toList := by
      rw [← List.count_eq_zero]
      simp [weight, plain] at hweight
      omega
    refine ⟨hcomma, fun hequals => ?_⟩
    exact absurd (dropWhile_equals hcomma hequals _) hkey
  · rintro ⟨hcomma, hequals⟩
    rw [settings_understood_comma hequals hcomma (by simp [plain]),
      settings_plain_comma (by decide) (by decide) (by simp [plain]),
      settings_plain (by decide) (by decide)]

theorem readName_iff (name : String) :
    readName name = [setting "guest" name.toList] ↔
      name ≠ "" ∧ ',' ∉ name.toList ∧ '=' ∉ name.toList := by
  unfold readName setting
  constructor
  · intro h
    have hkey : (name.toList.dropWhile inKey).head? ≠ some '=' := by
      intro hkey
      rw [settings_of_key hkey] at h
      have hweight := weight_settings name.toList
      rw [h] at hweight
      simp [weight] at hweight
      omega
    have hweight := weight_understood h hkey
    have hcomma : ',' ∉ name.toList := by
      rw [← List.count_eq_zero]
      simp only [weight] at hweight
      omega
    refine ⟨?_, hcomma, fun hequals => ?_⟩
    · rintro rfl
      cases h
    · have hhead := dropWhile_equals hcomma hequals []
      rw [List.append_nil] at hhead
      exact absurd hhead hkey
  · rintro ⟨hne, hcomma, hequals⟩
    exact settings_understood hequals hcomma fun h => hne (String.toList_eq_nil_iff.mp h)

end Meaning

-- The command line means the configuration exactly if no path or name has in it what the option
-- syntax gives a meaning to.
theorem commandLine_means_iff {ρ : Type} {site : Site ρ} {config : VmConfig} {accel : Accel}
    {qmpSocket : String} {inv : Invocation}
    (h : buildAarch64Virt site config accel qmpSocket = .ok inv) :
    Means inv.argv config qmpSocket ↔
      (∀ disk ∈ config.disks, ',' ∉ disk.toList) ∧
        (',' ∉ qmpSocket.toList ∧ '=' ∉ qmpSocket.toList) ∧
        (config.name ≠ "" ∧ ',' ∉ config.name.toList ∧ '=' ∉ config.name.toList) := by
  obtain ⟨hblockdev, hqmp, hname⟩ := buildAarch64Virt_arguments h
  have hdisks : (argumentsOf "-blockdev" inv.argv).map (·.map readBlockdev) =
      config.disks.zipIdx.map (fun (disk, i) => some (diskSettings disk i)) ↔
        ∀ disk ∈ config.disks, ',' ∉ disk.toList := by
    rw [hblockdev, List.map_map, List.map_inj_left]
    constructor
    · intro hall disk hdisk
      obtain ⟨i, hi, rfl⟩ := List.mem_iff_getElem.mp hdisk
      have hsame := hall (config.disks[i], i) (List.mk_mem_zipIdx_iff_getElem?.mpr (by simp [hi]))
      exact (readBlockdev_iff _ i).mp (Option.some.inj hsame)
    · intro hall p hp
      exact congrArg some ((readBlockdev_iff p.1 p.2).mpr (hall p.1 (List.fst_mem_of_mem_zipIdx hp)))
  constructor
  · intro hmeans
    have hsocket := hmeans.qmp
    have hguest := hmeans.name
    rw [hqmp] at hsocket
    rw [hname] at hguest
    exact ⟨hdisks.mp hmeans.blockdev,
      (readQmp_iff qmpSocket).mp (List.cons.inj hsocket).1,
      (readName_iff config.name).mp (Option.some.inj (List.cons.inj hguest).1)⟩
  · rintro ⟨hdisk, hsocket, hguest⟩
    refine ⟨hdisks.mpr hdisk, ?_, ?_⟩
    · rw [hqmp, ← (readQmp_iff qmpSocket).mpr hsocket]
      rfl
    · rw [hname, ← (readName_iff config.name).mpr hguest]
      rfl

def oneDisk (disk : String) : VmConfig := ⟨"web", .aarch64, 2, 512, [disk], false⟩

def plainSite : Site Nat where
  cwd := ["work"]
  home := "/srv"
  binary := "qemu-system-aarch64"
  firmware := "edk2-aarch64-code.fd"
  blank := 0
  digest := fun state overlays => toString state ++ String.join overlays

theorem commandLine_means_plain : ∃ inv,
    buildAarch64Virt plainSite (oneDisk "/data/root=1.qcow2") .hvf "/srv/web/qmp.sock" =
        .ok inv ∧
      Means inv.argv (oneDisk "/data/root=1.qcow2") "/srv/web/qmp.sock" := by
  refine ⟨_, rfl, (commandLine_means_iff rfl).mpr ?_⟩
  decide

-- A comma in the path of a disk ends the path, and what is behind it is a setting of its own.
theorem commandLine_disk_split : ∃ inv,
    buildAarch64Virt plainSite (oneDisk "/data/a,read-only=on") .hvf "/srv/web/qmp.sock" =
        .ok inv ∧
      (argumentsOf "-blockdev" inv.argv).map (·.map readBlockdev) =
        [some [setting "driver" "qcow2".toList, setting "node-name" "disk0".toList,
          setting "file.driver" "file".toList, setting "file.filename" "/data/a".toList,
          setting "read-only" "on".toList]] ∧
      ¬Means inv.argv (oneDisk "/data/a,read-only=on") "/srv/web/qmp.sock" := by
  refine ⟨_, rfl, ?_, ?_⟩
  · decide +kernel
  · intro hmeans
    exact absurd hmeans.blockdev (by decide +kernel)

end VMForge.Engine
