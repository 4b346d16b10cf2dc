import VMForge.Base.Overlay
import VMForge.Storage.QemuImg.Lemmas

namespace VMForge.Storage

open Exec

-- A file and the driver it is read with.
abbrev ImageRef := Path × String

-- How qemu-img reads files: the driver it takes a file for, and what a driver finds in it.
structure Formats (β : Type) where
  probe : β → String
  decode : String → β → Option (Layer ImageRef)
  probe_qcow2 : ∀ b l, decode "qcow2" b = some l → probe b = "qcow2"

-- The reference a command line names.
def refOf (backing : List String × String) : ImageRef := (Path.resolve backing.1, backing.2)

section

variable {β : Type} (F : Formats β)

def Formats.layerAt (fs : FileSystem β) (r : ImageRef) : Option (Layer ImageRef) :=
  (fs.blob r.1).bind (F.decode r.2)

variable (q : QemuImg β)

-- `create` gives an overlay that holds nothing and is as large as its backing file, which it
-- has opened, or else a flat image.
def Creates : Prop :=
  ∀ w path size backing preallocation clusterSize,
    (q.exec w (.create path size backing preallocation clusterSize)).failure = none →
    ∃ b l, (q.exec w (.create path size backing preallocation clusterSize)).content = some b ∧
      F.decode "qcow2" b = some l ∧ l.backing = backing.map refOf ∧
      ∀ r, l.backing = some r → (∀ o, l.data o = none) ∧ (F.layerAt w.fs r).isSome = true ∧
        (size = none → ∀ c, Resolves (F.layerAt w.fs) r c → l.size = c.size)

-- `info` describes a file as the driver it is taken for reads it.
structure Describes : Prop where
  sound : ∀ w path entry, q.info w path = .ok entry →
    ∃ b l, w.fs.blob path = some b ∧ F.decode (F.probe b) b = some l ∧
      entry.format = F.probe b ∧ entry.virtualSize = l.size ∧
      entry.backing.map Path.resolve = l.backing.map Prod.fst ∧
      entry.backingFormat = l.backing.map Prod.snd
  returns : ∀ w path b l, w.fs.blob path = some b → F.decode (F.probe b) b = some l →
    ∃ entry, q.info w path = .ok entry

-- `rebase -u` rewrites the backing pointer of a qcow2 file and nothing else.
def Repoints : Prop :=
  ∀ w path backing, (q.exec w (.rebase path backing true)).failure = none →
    ∃ b b' l, w.fs.blob path = some b ∧
      (q.exec w (.rebase path backing true)).content = some b' ∧
      F.decode "qcow2" b = some l ∧
      F.decode "qcow2" b' = some { l with backing := backing.map refOf }

-- `rebase` puts a file on another backing file and pulls in what that one does not provide.
def Rebases : Prop :=
  ∀ w path backing, (q.exec w (.rebase path backing false)).failure = none →
    ∃ b l, (q.exec w (.rebase path backing false)).content = some b ∧
      F.decode "qcow2" b = some l ∧ l.backing = backing.map refOf ∧
      ∀ c, Resolves (F.layerAt w.fs) (path, "qcow2") c →
        (l.backing = none → l.onto .empty = c) ∧
          ∀ r below, l.backing = some r → Resolves (F.layerAt w.fs) r below → l.onto below = c

end

section

variable {β : Type} {F : Formats β} {host : Host β} {w w' : World β}

theorem layerAt_eq_some {fs : FileSystem β} {r : ImageRef} {l : Layer ImageRef} :
    F.layerAt fs r = some l ↔ ∃ b, fs.blob r.1 = some b ∧ F.decode r.2 b = some l := by
  simp [Formats.layerAt, Option.bind_eq_some_iff]

theorem layerAt_congr {fs fs' : FileSystem β} {r : ImageRef} (h : fs'.blob r.1 = fs.blob r.1) :
    F.layerAt fs' r = F.layerAt fs r := by
  simp only [Formats.layerAt, h]

-- A command that succeeded and wrote its target.
theorem runQemuImg_ok {c : Command} {u : Unit} (h : runQemuImg host c w = (.ok u, w')) :
    (host.qemuImg.exec w c).failure = none ∧
      ∀ b, (host.qemuImg.exec w c).content = some b →
        w'.fs.node c.target = some (.file ⟨b, modeAt w.fs c.target⟩) ∧
        ∀ p, p ≠ c.target → w'.fs.node p = w.fs.node p := by
  simp only [runQemuImg, bind_eq_ok, raiseIf_eq_ok, read_eq_ok] at h
  obtain ⟨_, _, ⟨-, rfl⟩, _, _, ⟨rfl, rfl⟩, _, t, hwrite, hfinish⟩ := h
  cases hf : (host.qemuImg.exec w c).failure with
  | some failure => simp [hf, finish] at hfinish
  | none =>
      rw [hf] at hfinish
      obtain ⟨-, rfl⟩ := pure_eq_ok.mp hfinish
      refine ⟨rfl, fun b hb => ?_⟩
      rw [hb, writeTarget, read_bind, bind_eq_ok] at hwrite
      obtain ⟨_, _, hfault, hput⟩ := hwrite
      obtain ⟨hfault, rfl⟩ := raiseIf_eq_ok.mp hfault
      have hnone : createFault w.fs c.target = none := by
        simpa using hfault
      exact put_ok (admits_of_createFault hnone _) hput

theorem info_ok (hq : Describes F host.qemuImg) {path : Path} {inf : ImageInfo}
    (h : info host path w = (.ok inf, w')) :
    w' = w ∧ ∃ b l, w.fs.blob path = some b ∧ F.decode (F.probe b) b = some l ∧
      inf.format = F.probe b ∧ inf.virtualSize = l.size ∧
      inf.backingFile = l.backing.map Prod.fst ∧ inf.backingFormat = l.backing.map Prod.snd := by
  obtain rfl := (info_quiet path).eq_of_run h
  rw [info, read_bind] at h
  cases he : host.qemuImg.info w' path with
  | error failure => simp [he] at h
  | ok entry =>
      simp only [he, pure_eq_ok] at h
      obtain ⟨rfl, -⟩ := h
      exact ⟨rfl, hq.sound w' path entry he⟩

-- A qcow2 file is described as its layer.
theorem info_layer (hq : Describes F host.qemuImg) {path : Path} {inf : ImageInfo}
    {l : Layer ImageRef} (hl : F.layerAt w.fs (path, "qcow2") = some l)
    (h : info host path w = (.ok inf, w')) :
    inf.virtualSize = l.size ∧ inf.backingFile = l.backing.map Prod.fst := by
  obtain ⟨-, b, l', hb, hl', -, hsize, hbacking, -⟩ := info_ok hq h
  obtain ⟨b', hb', hdecode⟩ := layerAt_eq_some.mp hl
  obtain rfl := Option.some.inj (hb.symm.trans hb')
  rw [F.probe_qcow2 b l hdecode, hdecode] at hl'
  obtain rfl := Option.some.inj hl'
  exact ⟨hsize, hbacking⟩

theorem info_returns (hq : Describes F host.qemuImg) {path : Path} {l : Layer ImageRef}
    (hl : F.layerAt w.fs (path, "qcow2") = some l) : ∃ inf, info host path w = (.ok inf, w) := by
  obtain ⟨b, hb, hdecode⟩ := layerAt_eq_some.mp hl
  obtain ⟨entry, he⟩ := hq.returns w path b l hb (by rw [F.probe_qcow2 b l hdecode, hdecode])
  rw [info, read_bind]
  simp only [he]
  exact ⟨_, rfl⟩

theorem rebaseUnsafe_ok (hq : Repoints F host.qemuImg) {path : Path} {backing : Option (List String)}
    {u : Unit} (h : rebase host path backing true w = (.ok u, w')) :
    ∃ b b' l, w.fs.blob path = some b ∧
      w'.fs.node path = some (.file ⟨b', modeAt w.fs path⟩) ∧
      F.decode "qcow2" b = some l ∧
      F.decode "qcow2" b' =
        some { l with backing := backing.map fun file => (Path.resolve file, "qcow2") } ∧
      ∀ p, p ≠ path → w'.fs.node p = w.fs.node p := by
  obtain ⟨hok, hwrote⟩ := runQemuImg_ok h
  obtain ⟨b, b', l, hb, hb', hl, hl'⟩ := hq w path _ hok
  obtain ⟨hnode, hother⟩ := hwrote b' hb'
  refine ⟨b, b', l, hb, hnode, hl, ?_, hother⟩
  rw [hl', Option.map_map]
  rfl

theorem rebase_ok (hq : Rebases F host.qemuImg) {path : Path} {backing : Option (List String)}
    {u : Unit} (h : rebase host path backing false w = (.ok u, w')) :
    ∃ b l, w'.fs.node path = some (.file ⟨b, modeAt w.fs path⟩) ∧
      F.decode "qcow2" b = some l ∧
      l.backing = backing.map (fun file => (Path.resolve file, "qcow2")) ∧
      (∀ c, Resolves (F.layerAt w.fs) (path, "qcow2") c →
        (l.backing = none → l.onto .empty = c) ∧
          ∀ r below, l.backing = some r → Resolves (F.layerAt w.fs) r below → l.onto below = c) ∧
      ∀ p, p ≠ path → w'.fs.node p = w.fs.node p := by
  obtain ⟨hok, hwrote⟩ := runQemuImg_ok h
  obtain ⟨b, l, hb, hl, hbacking, hcontent⟩ := hq w path _ hok
  obtain ⟨hnode, hother⟩ := hwrote b hb
  refine ⟨b, l, hnode, hl, ?_, hcontent, hother⟩
  rw [hbacking, Option.map_map]
  rfl

theorem createQcow2_ok (hq : Creates F host.qemuImg) {path : Path} {size : Option String}
    {backing : Option (List String × String)} {preallocation : String}
    {clusterSize : Option String} {u : Unit}
    (h : createQcow2 host path size backing preallocation clusterSize w = (.ok u, w')) :
    ∃ b l, w'.fs.node path = some (.file ⟨b, modeAt w.fs path⟩) ∧
      F.decode "qcow2" b = some l ∧ l.backing = backing.map refOf ∧
      (∀ r, l.backing = some r → (∀ o, l.data o = none) ∧ (F.layerAt w.fs r).isSome = true ∧
        (size = none → ∀ c, Resolves (F.layerAt w.fs) r c → l.size = c.size)) ∧
      ∀ p, p ≠ path → w'.fs.node p = w.fs.node p := by
  simp only [createQcow2, bind_eq_ok, raiseIf_eq_ok] at h
  obtain ⟨_, _, ⟨-, rfl⟩, _, _, ⟨-, rfl⟩, h⟩ := h
  obtain ⟨hok, hwrote⟩ := runQemuImg_ok h
  obtain ⟨b, l, hb, hl, hbacking, hempty⟩ := hq w path _ _ _ _ hok
  obtain ⟨hnode, hother⟩ := hwrote b hb
  exact ⟨b, l, hnode, hl, hbacking, hempty, hother⟩

end

end VMForge.Storage
