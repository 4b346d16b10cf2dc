import VMForge.Engine.Qemu
import VMForge.Base.Decimal

namespace VMForge.Engine

open VMForge.Core

inductive GuestArch where
  | x86_64
  | aarch64
deriving DecidableEq

def GuestArch.debug : GuestArch → String
  | .x86_64 => "X86_64"
  | .aarch64 => "Aarch64"

structure VmConfig where
  name : String
  arch : GuestArch
  vcpus : Nat
  memoryMib : Nat
  disks : List String
  gpu3d : Bool
deriving DecidableEq

inductive Accel where
  | kvm
  | hvf
  | tcg
deriving DecidableEq

namespace Accel

def asStr : Accel → String
  | .kvm => "kvm"
  | .hvf => "hvf"
  | .tcg => "tcg"

def cpuModel : Accel → String
  | .kvm => "host"
  | .hvf => "host"
  | .tcg => "max"

end Accel

def nodeName (i : Nat) : String := s!"disk{i}"

@[simp] theorem nodeName_toList (i : Nat) :
    (nodeName i).toList = "disk".toList ++ Nat.toDigits 10 i := by
  simp [nodeName, toString, Nat.toList_repr]

theorem nodeName_inj {i j : Nat} (h : nodeName i = nodeName j) : i = j := by
  have hl := congrArg String.toList h
  rw [nodeName_toList, nodeName_toList] at hl
  exact toDigits_inj (List.append_cancel_left hl)

variable {ρ : Type}

def buildAarch64Virt (site : Site ρ) (config : VmConfig) (accel : Accel) (qmpSocket : String) :
    Except HvError Invocation :=
  if config.arch ≠ .aarch64 then
    .error (.unsupported accel.asStr
      s!"guest arch {config.arch.debug} not supported by the aarch64 virt invocation (MVP: aarch64 Linux guests only)")
  else
    .ok
      { binary := site.binary
        args :=
          [.opt "-name" config.name, .opt "-machine" "virt", .opt "-accel" accel.asStr,
            .opt "-cpu" accel.cpuModel, .opt "-smp" (toString config.vcpus),
            .opt "-m" s!"{config.memoryMib}M", .opt "-bios" site.firmware,
            .opt "-display" "none", .opt "-serial" "none",
            .opt "-qmp" s!"unix:{qmpSocket},server=on,wait=off", .flag "-S",
            .opt "-device" "virtio-serial-pci", .opt "-device" "virtio-rng-pci",
            .opt "-netdev" "user,id=net0", .opt "-device" "virtio-net-pci,netdev=net0"]
          ++ config.disks.zipIdx.map (fun (disk, i) => .disk (nodeName i) disk)
          ++ (if config.gpu3d then [.opt "-device" "virtio-gpu-pci"] else [])
        qmpSocket := qmpSocket }

-- The disks an invocation opens are those of the configuration, each under its own node.
theorem buildAarch64Virt_disks {site : Site ρ} {config : VmConfig} {accel : Accel}
    {qmpSocket : String} {inv : Invocation}
    (h : buildAarch64Virt site config accel qmpSocket = .ok inv) :
    inv.disks = config.disks.zipIdx.map fun (disk, i) => ⟨⟨nodeName i, disk⟩, []⟩ := by
  unfold buildAarch64Virt at h
  split at h
  · cases h
  · cases h
    simp only [Invocation.disks, List.filterMap_append, List.filterMap_map]
    cases config.gpu3d <;> simp

theorem withIncomingDefer_disks (inv : Invocation) : inv.withIncomingDefer.disks = inv.disks := by
  simp [Invocation.disks, Invocation.withIncomingDefer]

-- An invocation can only be refused for the guest's architecture.
theorem buildAarch64Virt_ok_iff {site : Site ρ} {config : VmConfig} {accel : Accel}
    {qmpSocket : String} :
    (∃ inv, buildAarch64Virt site config accel qmpSocket = .ok inv) ↔ config.arch = .aarch64 := by
  unfold buildAarch64Virt
  split
  · rename_i h
    simp [h]
  · rename_i h
    simpa using h

end VMForge.Engine
