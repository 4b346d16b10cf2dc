import VMForge.Engine.Qmp.Replies
import VMForge.Engine.Vm

namespace VMForge.Engine.Qmp

open VMForge.Core

variable {serde : Serde}

-- `ret["status"].as_str().unwrap_or_default()`
def statusOf (ret : Json) : String :=
  match member ret "status" with
  | some (.str status) => status
  | _ => ""

-- What a reply says to `QemuVm`.
def Reply.toQmp (r : Reply serde) : QmpReply :=
  match member r.value "return" with
  | some ret => .returns (statusOf ret)
  | none => .error (serde.display ((member r.value "error").getD .null))

theorem verdict_toQmp (command : String) (r : Reply serde) :
    (verdict command r).map statusOf = r.toQmp.verdict command := by
  unfold verdict Reply.toQmp
  cases member r.value "return" <;> rfl

-- Between two lines, when QEMU answers the commands so far with `answers`, sooner or later: the
-- replies that no call has taken, those that QEMU has still to write included.
def Unread (answers : List (Reply serde)) (c : Connection serde) (us : List QmpReply) : Prop :=
  ∃ k, Awaiting k answers.length none [] c ∧ c.replies <+: answers ∧
    us = (answers.drop k).map Reply.toQmp

section Unread

variable {answers : List (Reply serde)} {c : Connection serde} {us : List QmpReply}

-- No reply is left exactly when the connection is settled.
theorem Unread.nil_iff (h : Unread answers c us) : us = [] ↔ Settled c := by
  obtain ⟨k, hwait, hbegun, rfl⟩ := h
  have hasked := hwait.asked
  have hkept := hwait.kept
  have hmost := hwait.atMost
  rw [List.map_eq_nil_iff, List.drop_eq_nil_iff, settled_iff, hasked]
  constructor
  · intro hall
    have hk : k = answers.length := by omega
    rwa [hk] at hwait
  · intro hsettled
    have hnone := hwait.pending.symm.trans hsettled.pending
    have hlen := congrArg List.length hnone
    have hkept' := hsettled.kept
    rw [List.length_drop, List.length_drop] at hlen
    omega

-- What QEMU does between two calls takes no reply from the client.
theorem Unread.idle (h : Unread answers c us) (a : Happening serde)
    (hbegun : (c.idle a).replies <+: answers) : Unread answers (c.idle a) us := by
  obtain ⟨k, hwait, -, hus⟩ := h
  exact ⟨k, hwait.idle a, hbegun, hus⟩

-- The model of the client that `QemuVm` rests on says what this one does: a call takes the oldest
-- reply, or fails and takes none. A line that a failing read has begun is torn, and of what
-- follows it nothing is said.
theorem execute_receives (h : Unread answers c us) (own : Reply serde) (command : String)
    (arguments : Option Json) (hs : List (Happening serde))
    (hbegun : (QmpClient.execute serde command arguments hs c).2.replies <+: answers ++ [own]) :
    ((QmpClient.execute serde command arguments hs c).1.map statusOf =
        (receive command none (us ++ [own.toQmp])).1 ∧
      Unread (answers ++ [own]) (QmpClient.execute serde command arguments hs c).2
        (receive command none (us ++ [own.toQmp])).2) ∨
      (∃ e, (QmpClient.execute serde command arguments hs c).1 = .error e) ∧
        ((QmpClient.execute serde command arguments hs c).2.rest = [] → ∀ why,
          Unread (answers ++ [own]) (QmpClient.execute serde command arguments hs c).2
            (receive command (some why) (us ++ [own.toQmp])).2) := by
  obtain ⟨k, hwait, hpre, rfl⟩ := h
  have hk : k ≤ answers.length := Nat.le_trans hwait.kept hpre.length_le
  have hall : (answers.drop k).map Reply.toQmp ++ [own.toQmp] =
      ((answers ++ [own]).drop k).map Reply.toQmp := by
    rw [List.drop_append_of_le_length hk, List.map_append, List.map_singleton]
  have hlen : (answers ++ [own]).length = answers.length + 1 := by
    rw [List.length_append, List.length_singleton]
  rw [hall]
  rcases execute_takes hwait command arguments hs with
    ⟨r, hr, hres, hafter⟩ | ⟨hfails, m, line, hafter⟩
  · left
    -- the oldest reply heads the list
    have holdest : (answers ++ [own])[k]? = some r := by
      obtain ⟨later, hlater⟩ := hbegun
      rw [← hlater, List.getElem?_append_left (List.getElem?_eq_some_iff.mp hr).1, hr]
    have hsplit : (answers ++ [own]).drop k = r :: (answers ++ [own]).drop (k + 1) :=
      List.drop_eq_getElem?_toList_append.trans (by rw [holdest]; rfl)
    rw [hsplit, hres, List.map_cons]
    rw [← hlen] at hafter
    exact ⟨verdict_toQmp command r, k + 1, hafter, hbegun, rfl⟩
  · right
    rw [← hlen] at hafter
    exact ⟨hfails, fun hrest why => ⟨k, hafter.between hrest, hbegun, rfl⟩⟩

end Unread

-- QEMU answers the commands with `answers`, and the turn ends between two lines.
def Whole (serde : Serde) (answers : List (Reply serde)) (c : Connection serde)
    (t : Turn serde) : Prop :=
  (turn serde c t).replies <+: answers ∧ (turn serde c t).commands.length ≤ answers.length ∧
    (turn serde c t).rest = []

-- A turn does what the client of `QemuVm` does.
def Received (serde : Serde) (answers : List (Reply serde)) (c : Connection serde) :
    Turn serde → Prop
  | .execute command arguments hs => ∃ us own failed,
      Unread (answers.take c.commands.length) c us ∧ answers[c.commands.length]? = some own ∧
        Unread (answers.take (c.commands.length + 1))
          (QmpClient.execute serde command arguments hs c).2
          (receive command failed (us ++ [own.toQmp])).2 ∧
        ((QmpClient.execute serde command arguments hs c).1.map statusOf =
            (receive command failed (us ++ [own.toQmp])).1 ∨
          failed ≠ none ∧ ∃ e, (QmpClient.execute serde command arguments hs c).1 = .error e)
  | .idle a => ∃ us, Unread (answers.take c.commands.length) c us ∧
      Unread (answers.take c.commands.length) (c.idle a) us

-- A call asks one command, and no more is answered than asked.
theorem asked_execute {c : Connection serde} {k n : Nat} (h : Awaiting k n none [] c)
    (command : String) (arguments : Option Json) (hs : List (Happening serde)) :
    (QmpClient.execute serde command arguments hs c).2.commands.length = n + 1 ∧
      (QmpClient.execute serde command arguments hs c).2.replies.length ≤ n + 1 := by
  obtain ⟨r, -, -, hafter⟩ | ⟨-, m, line, hafter⟩ := execute_takes h command arguments hs
  · exact ⟨hafter.asked, hafter.atMost⟩
  · exact ⟨hafter.asked, hafter.atMost⟩

-- A settled connection has no reply left.
theorem Settled.unread {answers : List (Reply serde)} {c : Connection serde} (h : Settled c)
    (hbegun : c.replies <+: answers) : Unread (answers.take c.commands.length) c [] := by
  have hlen : (answers.take c.commands.length).length = c.commands.length := by
    rw [List.length_take, Nat.min_eq_left]
    exact h.answered ▸ hbegun.length_le
  refine ⟨c.commands.length, ?_, ?_, ?_⟩
  · rw [hlen]
    exact settled_iff.mp h
  · exact List.prefix_take_iff.mpr ⟨hbegun, Nat.le_of_eq h.answered⟩
  · rw [List.drop_take_self, List.map_nil]

theorem received_of_unread {answers : List (Reply serde)} {c : Connection serde}
    {us : List QmpReply} {t : Turn serde} (h : Unread (answers.take c.commands.length) c us)
    (hwhole : Whole serde answers c t) :
    Received serde answers c t ∧ ∃ us', Unread (answers.take (turn serde c t).commands.length)
      (turn serde c t) us' := by
  obtain ⟨hbegun, hroom, hrest⟩ := hwhole
  cases t with
  | idle a =>
      have hsame : (c.idle a).commands.length = c.commands.length := by
        obtain ⟨k, hwait, -, -⟩ := h
        exact (hwait.idle a).asked.trans hwait.asked.symm
      have hnext : Unread (answers.take c.commands.length) (c.idle a) us := by
        refine h.idle a (List.prefix_take_iff.mpr ⟨hbegun, ?_⟩)
        obtain ⟨k, hwait, -, -⟩ := h
        rw [hwait.asked]
        exact (hwait.idle a).atMost
      refine ⟨⟨us, h, hnext⟩, us, ?_⟩
      rw [show (turn serde c (.idle a)).commands.length = c.commands.length from hsame]
      exact hnext
  | execute command arguments hs =>
      obtain ⟨hasked, hmost⟩ :
          (QmpClient.execute serde command arguments hs c).2.commands.length =
            c.commands.length + 1 ∧
          (QmpClient.execute serde command arguments hs c).2.replies.length ≤
            c.commands.length + 1 := by
        obtain ⟨k, hwait, -, -⟩ := h
        rw [hwait.asked]
        exact asked_execute hwait command arguments hs
      have hlt : c.commands.length < answers.length := by
        have hroom' : (QmpClient.execute serde command arguments hs c).2.commands.length ≤
            answers.length := hroom
        omega
      have hown : answers[c.commands.length]? = some (answers[c.commands.length]) :=
        List.getElem?_eq_getElem hlt
      have htake : answers.take c.commands.length ++ [answers[c.commands.length]] =
          answers.take (c.commands.length + 1) := List.take_append_getElem hlt
      have hbegun' : (QmpClient.execute serde command arguments hs c).2.replies <+:
          answers.take c.commands.length ++ [answers[c.commands.length]] := by
        rw [htake]
        exact List.prefix_take_iff.mpr ⟨hbegun, hmost⟩
      have hturn : (turn serde c (.execute command arguments hs)).commands.length =
          c.commands.length + 1 := hasked
      rw [hturn, ← htake]
      rcases execute_receives h _ command arguments hs hbegun' with ⟨hres, hnext⟩ | ⟨hfails, hnext⟩
      · refine ⟨⟨us, _, none, h, hown, ?_, Or.inl hres⟩, _, hnext⟩
        rw [← htake]
        exact hnext
      · refine ⟨⟨us, _, some "", h, hown, ?_, Or.inr ⟨nofun, hfails⟩⟩, _, hnext hrest ""⟩
        rw [← htake]
        exact hnext hrest ""

-- From one turn to the next, a client that has connected does what the client of `QemuVm` does.
theorem received_along {answers : List (Reply serde)} {c : Connection serde}
    {turns : List (Turn serde)} (hc : Settled c) (hbegun : c.replies <+: answers)
    (h : Along (turn serde) (Whole serde answers) c turns) :
    Along (turn serde) (Received serde answers) c turns := by
  refine h.strengthen (fun c => ∃ us, Unread (answers.take c.commands.length) c us)
    ⟨[], hc.unread hbegun⟩ (fun s t hs ht => ?_) fun s t hs ht => ?_
  · obtain ⟨us', hus⟩ := hs
    exact (received_of_unread hus ht).2
  · obtain ⟨us', hus⟩ := hs
    exact (received_of_unread hus ht).1

end VMForge.Engine.Qmp
