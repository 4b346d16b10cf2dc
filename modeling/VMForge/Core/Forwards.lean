import VMForge.Core.Net

namespace VMForge.Core

-- A netdev id, as `UserNetBackend::validate` has it.
def wellFormedId (id : String) : Bool :=
  match id.toList with
  | [] => false
  | c :: cs => c.isAlpha && cs.all fun c => c.isAlphanum || c ∈ ['_', '.', '-']

-- A call for a netdev and a rule with an IPv4 or the default host address.
structure Call where
  remove : Bool
  netdev : { id : String // wellFormedId id = true }
  proto : Proto
  host : Option Ipv4
  hostPort : UInt16
  guestPort : UInt16

namespace Call

def fwd (c : Call) : PortForward := ⟨c.proto, c.host.map Ipv4.text, c.hostPort, c.guestPort⟩

def forward (c : Call) : Forward :=
  ⟨c.netdev.val.toList, c.proto, c.host.getD ⟨127, 0, 0, 1⟩, c.hostPort.toNat, c.guestPort.toNat⟩

-- The forwards that a removal is about.
def key (c : Call) (f : Forward) : Bool :=
  f.netdev = c.forward.netdev ∧ f.proto = c.proto ∧ f.host = c.forward.host ∧
    f.hostPort = c.forward.hostPort

variable (Q : Qemu)

-- Whether QEMU does what it is asked to do.
def performed (table : List Forward) (c : Call) : Bool :=
  if c.remove = true then table.any c.key else Q.admits table c.forward

def apply (table : List Forward) (c : Call) : List Forward :=
  if c.remove = true then table.eraseP c.key else table ++ [c.forward]

def run (table : List Forward) (c : Call) : Except HvError Unit × List Forward :=
  if c.remove = true then UserNetBackend.hostfwdRemove Q.monitor c.netdev.val c.fwd table
  else UserNetBackend.hostfwdAdd Q.monitor c.netdev.val c.fwd table

-- QEMU's table after a call.
def turn (table : List Forward) (c : Call) : List Forward := (c.run Q table).2

-- The caller's table: the calls that return `Ok`, applied to the table of the start.
def applied : List Forward → List Forward → List Call → List Forward
  | _, mine, [] => mine
  | table, mine, c :: cs =>
      applied (c.turn Q table) (if (c.run Q table).1.isOk = true then c.apply mine else mine) cs

end Call

section Texts

theorem digit_of_mem {n : Nat} {c : Char} (h : c ∈ Nat.toDigits 10 n) : c.isDigit = true :=
  Nat.isDigit_of_mem_toDigits (by decide) (by decide) h

theorem notMem_toDigits {c : Char} (hc : c.isDigit = false) (n : Nat) :
    c ∉ Nat.toDigits 10 n := by
  intro h
  rw [digit_of_mem h] at hc
  cases hc

theorem parseNumber_toDigits {n limit : Nat} (hn : n < limit) :
    Qemu.parseNumber limit (Nat.toDigits 10 n) = some n := by
  unfold Qemu.parseNumber
  simp only [Nat.ofDigitChars_ten_toDigits]
  rw [if_pos]
  refine ⟨Nat.toDigits_ne_nil, ?_, hn⟩
  rw [List.all_eq_true]
  exact fun c hc => digit_of_mem hc

theorem text_toList (ip : Ipv4) :
    ip.text.toList = Nat.toDigits 10 ip.a.toNat ++ '.' :: (Nat.toDigits 10 ip.b.toNat ++
      '.' :: (Nat.toDigits 10 ip.c.toNat ++ '.' :: Nat.toDigits 10 ip.d.toNat)) := by
  simp [Ipv4.text, String.toList_append, toString]

theorem parseHost_text (ip : Ipv4) : Qemu.parseHost ip.text.toList = some ip := by
  have hdot : ∀ n, '.' ∉ Nat.toDigits 10 n := notMem_toDigits (by decide)
  have hbyte : ∀ b : UInt8, Qemu.parseNumber 256 (Nat.toDigits 10 b.toNat) = some b.toNat :=
    fun b => parseNumber_toDigits b.toNat_lt
  unfold Qemu.parseHost
  rw [text_toList, List.splitOn_append_cons_self_of_not_mem (hdot _),
    List.splitOn_append_cons_self_of_not_mem (hdot _),
    List.splitOn_append_cons_self_of_not_mem (hdot _), List.splitOn_eq_singleton (hdot _)]
  simp only [hbyte]
  simp

theorem notMem_text {ch : Char} (hc : ch.isDigit = false) (hdot : ch ≠ '.') (ip : Ipv4) :
    ch ∉ ip.text.toList := by
  have hdigits := notMem_toDigits hc
  rw [text_toList]
  simp [hdigits, hdot]

theorem parseProto_asStr (p : Proto) : Qemu.parseProto p.asStr.toList = some p := by
  cases p <;> rfl

theorem notMem_asStr {ch : Char} (hc : ch ∈ [':', ' ']) (p : Proto) : ch ∉ p.asStr.toList := by
  revert hc
  cases p <;> revert ch <;> decide

-- Without an address the rule has the text of the loopback address.
theorem host_text (c : Call) : c.fwd.hostIp.getD "127.0.0.1" = c.forward.host.text := by
  have hlocal : "127.0.0.1" = (⟨127, 0, 0, 1⟩ : Ipv4).text := by decide
  unfold Call.fwd Call.forward
  cases c.host with
  | none => exact hlocal
  | some ip => rfl

theorem toHostfwd_toList (c : Call) :
    c.fwd.toHostfwd.toList = c.proto.asStr.toList ++ ':' :: (c.forward.host.text.toList ++
      ':' :: (Nat.toDigits 10 c.hostPort.toNat ++ ['-'] ++ ':' ::
        Nat.toDigits 10 c.guestPort.toNat)) := by
  unfold PortForward.toHostfwd
  rw [host_text]
  simp [toString, Call.fwd]

theorem removeKey_toList (c : Call) :
    (UserNetBackend.removeKey c.fwd).toList = c.proto.asStr.toList ++ ':' ::
      (c.forward.host.text.toList ++ ':' :: Nat.toDigits 10 c.hostPort.toNat) := by
  unfold UserNetBackend.removeKey
  rw [host_text]
  simp [toString, Call.fwd]

theorem parseRule_toHostfwd (c : Call) :
    Qemu.parseRule c.netdev.val.toList c.fwd.toHostfwd.toList = some c.forward := by
  have hdash : '-' ∉ Nat.toDigits 10 c.hostPort.toNat := notMem_toDigits (by decide) _
  have hports : ':' ∉ Nat.toDigits 10 c.hostPort.toNat ++ ['-'] := by
    simp [notMem_toDigits]
  unfold Qemu.parseRule
  rw [toHostfwd_toList, List.splitOn_append_cons_self_of_not_mem (notMem_asStr (by decide) _),
    List.splitOn_append_cons_self_of_not_mem (notMem_text (by decide) (by decide) _),
    List.splitOn_append_cons_self_of_not_mem hports,
    List.splitOn_eq_singleton (notMem_toDigits (by decide) _)]
  simp only [List.splitOn_append_cons_self_of_not_mem hdash, List.splitOn_nil, parseProto_asStr,
    parseHost_text, parseNumber_toDigits (UInt16.toNat_lt _)]
  rfl

theorem parseKey_removeKey (c : Call) :
    Qemu.parseKey c.netdev.val.toList (UserNetBackend.removeKey c.fwd).toList = some c.key := by
  unfold Qemu.parseKey
  rw [removeKey_toList, List.splitOn_append_cons_self_of_not_mem (notMem_asStr (by decide) _),
    List.splitOn_append_cons_self_of_not_mem (notMem_text (by decide) (by decide) _),
    List.splitOn_eq_singleton (notMem_toDigits (by decide) _)]
  simp only [parseProto_asStr, parseHost_text, parseNumber_toDigits (UInt16.toNat_lt _)]
  rfl

-- No blank is in a netdev id or a rule, so the monitor sees the words of a command.
theorem blank_notMem_netdev (c : Call) : ' ' ∉ c.netdev.val.toList := by
  have hid := c.netdev.property
  unfold wellFormedId at hid
  cases hcs : c.netdev.val.toList with
  | nil => exact List.not_mem_nil
  | cons d ds =>
      simp only [hcs, Bool.and_eq_true, List.all_eq_true] at hid
      intro h
      obtain rfl | h := List.mem_cons.mp h
      · exact absurd hid.1 (by decide)
      · exact absurd (hid.2 _ h) (by decide)

theorem blank_notMem_removeKey (c : Call) : ' ' ∉ (UserNetBackend.removeKey c.fwd).toList := by
  rw [removeKey_toList]
  simp [notMem_asStr, notMem_text, notMem_toDigits]

theorem blank_notMem_toHostfwd (c : Call) : ' ' ∉ c.fwd.toHostfwd.toList := by
  rw [toHostfwd_toList]
  simp [notMem_asStr, notMem_text, notMem_toDigits]

theorem words {verb netdev rule : List Char} (hverb : ' ' ∉ verb) (hnetdev : ' ' ∉ netdev)
    (hrule : ' ' ∉ rule) :
    (verb ++ ' ' :: (netdev ++ ' ' :: rule)).splitOn ' ' = [verb, netdev, rule] := by
  rw [List.splitOn_append_cons_self_of_not_mem hverb,
    List.splitOn_append_cons_self_of_not_mem hnetdev, List.splitOn_eq_singleton hrule]

end Texts

namespace Call

variable (Q : Qemu)

-- QEMU does with the text of a call what the call is about.
theorem command_add (c : Call) (table : List Forward) :
    Q.command s!"hostfwd_add {c.netdev.val} {c.fwd.toHostfwd}" table =
      if Q.admits table c.forward = true then ("", table ++ [c.forward])
      else (Q.complaint c.fwd.toHostfwd.toList, table) := by
  have htext : (s!"hostfwd_add {c.netdev.val} {c.fwd.toHostfwd}").toList =
      "hostfwd_add".toList ++ ' ' :: (c.netdev.val.toList ++ ' ' :: c.fwd.toHostfwd.toList) := by
    simp [toString]
  unfold Qemu.command
  rw [htext, words (by decide) (blank_notMem_netdev c) (blank_notMem_toHostfwd c)]
  simp only [if_true, parseRule_toHostfwd]

theorem command_remove (c : Call) (table : List Forward) :
    Q.command s!"hostfwd_remove {c.netdev.val} {UserNetBackend.removeKey c.fwd}" table =
      if table.any c.key = true then
        (s!"host forwarding rule for {UserNetBackend.removeKey c.fwd} removed\r\n",
          table.eraseP c.key)
      else (s!"host forwarding rule for {UserNetBackend.removeKey c.fwd} not found\r\n", table) := by
  have htext : (s!"hostfwd_remove {c.netdev.val} {UserNetBackend.removeKey c.fwd}").toList =
      "hostfwd_remove".toList ++ ' ' ::
        (c.netdev.val.toList ++ ' ' :: (UserNetBackend.removeKey c.fwd).toList) := by
    simp [toString]
  unfold Qemu.command
  rw [htext, words (by decide) (blank_notMem_netdev c) (blank_notMem_removeKey c)]
  simp only [parseKey_removeKey, String.ofList_toList]
  rw [if_neg (by decide), if_pos trivial]

-- A text with something to see is an error, whatever it says.
theorem outcome_visible (verb : String) {out : String}
    (h : ∃ ch ∈ out.toList, Text.isWhitespace ch = false) :
    (UserNetBackend.outcome verb (.ok out)).isOk = false := by
  obtain ⟨ch, hch, hvisible⟩ := h
  have hne : Text.trim out.toList ≠ [] := by
    intro hnil
    rw [Text.trimMatches_eq_nil.mp hnil ch hch] at hvisible
    cases hvisible
  simp only [UserNetBackend.outcome, if_neg hne]
  rfl

theorem run_add (table : List Forward) {c : Call} (h : ¬c.remove = true) :
    c.run Q table = if Q.admits table c.forward = true then (.ok (), table ++ [c.forward])
      else (UserNetBackend.outcome "hostfwd_add" (.ok (Q.complaint c.fwd.toHostfwd.toList)), table) := by
  have hcommand := command_add Q c table
  unfold run UserNetBackend.hostfwdAdd
  simp only [if_neg h, Qemu.monitor, hcommand]
  split <;> rfl

theorem run_remove (table : List Forward) {c : Call} (h : c.remove = true) :
    (c.run Q table).1.isOk = false ∧
      (c.run Q table).2 = if table.any c.key = true then table.eraseP c.key else table := by
  have hcommand := command_remove Q c table
  unfold run UserNetBackend.hostfwdRemove
  simp only [if_pos h, Qemu.monitor, hcommand]
  split
  · exact ⟨outcome_visible _ ⟨'h', by simp [toString], by decide⟩, rfl⟩
  · exact ⟨outcome_visible _ ⟨'h', by simp [toString], by decide⟩, rfl⟩

-- QEMU's table after a call.
theorem turn_eq (table : List Forward) (c : Call) :
    c.turn Q table = if c.performed Q table = true then c.apply table else table := by
  unfold turn performed apply
  by_cases hremove : c.remove = true
  · rw [(run_remove Q table hremove).2]
    simp only [if_pos hremove]
  · rw [run_add Q table hremove]
    simp only [if_neg hremove]
    split <;> rfl

-- The backend reports a success exactly for the rules that QEMU adds: it takes what QEMU prints
-- when it has removed a rule for an error.
theorem isOk_eq (table : List Forward) (c : Call) :
    (c.run Q table).1.isOk = (!c.remove && c.performed Q table) := by
  unfold performed
  by_cases hremove : c.remove = true
  · rw [(run_remove Q table hremove).1, hremove]
    rfl
  · rw [run_add Q table hremove]
    simp only [hremove, Bool.not_false, Bool.true_and]
    split
    · rename_i hadmits
      simp [hadmits, Except.isOk, Except.toBool]
    · rename_i hrefused
      rw [outcome_visible _ (Q.visible _)]
      simpa using (Bool.not_eq_true _ ▸ hrefused)

theorem honest_iff (table : List Forward) (c : Call) :
    (c.run Q table).1.isOk = c.performed Q table ↔
      ¬(c.remove = true ∧ c.performed Q table = true) := by
  rw [isOk_eq]
  cases c.remove <;> cases c.performed Q table <;> simp

theorem applied_eq (table : List Forward) (calls : List Call)
    (h : Along (fun table c => c.turn Q table)
      (fun table c => (c.run Q table).1.isOk = c.performed Q table) table calls) :
    applied Q table table calls = after (fun table c => c.turn Q table) table calls := by
  induction calls generalizing table with
  | nil => rfl
  | cons c cs ih =>
      obtain ⟨hhonest, hrest⟩ := h
      rw [applied, hhonest, after_cons, ← turn_eq]
      exact ih _ hrest

-- In a run without a removal that QEMU performs, and in no other, every call returns `Ok` exactly
-- if QEMU performed it, and the calls that return `Ok` lead to QEMU's table.
theorem in_step_iff (Q : Qemu) (table : List Forward) (calls : List Call) :
    Along (fun table c => c.turn Q table)
        (fun table c => (c.run Q table).1.isOk = c.performed Q table) table calls ∧
      applied Q table table calls = after (fun table c => c.turn Q table) table calls ↔
    Along (fun table c => c.turn Q table)
      (fun table c => ¬(c.remove = true ∧ c.performed Q table = true)) table calls := by
  constructor
  · rintro ⟨hhonest, -⟩
    exact hhonest.strengthen (fun _ => True) trivial (fun _ _ _ _ => trivial)
      fun table c _ hc => (honest_iff Q table c).mp hc
  · intro hnone
    have hhonest := hnone.strengthen (fun _ => True) trivial (fun _ _ _ _ => trivial)
      fun table c _ hc => (honest_iff Q table c).mpr hc
    exact ⟨hhonest, applied_eq Q table calls hhonest⟩

end Call

namespace Sample

-- A QEMU with free ports.
def qemu : Qemu where
  admits _ _ := true
  complaint _ := "Could not set up host forwarding rule"
  visible _ := ⟨'C', by decide, by decide⟩

def forward (remove : Bool) : Call := ⟨remove, ⟨"net0", by decide⟩, .tcp, none, 2222, 22⟩

end Sample

-- A rule is added and removed again; QEMU does both, and the removal is reported as failed.
theorem removal_misread :
    ¬∀ (Q : Qemu) (table : List Forward) (calls : List Call),
      Along (fun table c => c.turn Q table)
        (fun table c => (c.run Q table).1.isOk = c.performed Q table) table calls := by
  intro h
  have hremove := (h Sample.qemu [] [Sample.forward false, Sample.forward true]).2.1
  revert hremove
  decide

end VMForge.Core
