import VMForge.Engine.Qmp

namespace VMForge.Engine.Qmp

open VMForge.Core

variable {serde : Serde}

-- No command waits for its reply: every command has been answered, the client has read all the
-- replies, and it stands at the start of a line.
structure Settled (c : Connection serde) : Prop where
  lineStart : c.rest = []
  noReply : c.queue.filterMap Sent.reply? = []
  answered : c.replies.length = c.commands.length

-- A call that returns a value returns the one QEMU has given for its command.
def Paired (serde : Serde) (c : Connection serde) : Turn serde → Prop
  | .execute command arguments hs => ∀ v,
      (QmpClient.execute serde command arguments hs c).1 = .ok v →
      ∃ r, (QmpClient.execute serde command arguments hs c).2.replies[c.commands.length]? = some r ∧
        member r.value "return" = some v
  | .idle _ => True

-- Every call finds the connection settled.
def Ready (serde : Serde) (c : Connection serde) : Turn serde → Prop
  | .execute _ _ _ => Settled c
  | .idle _ => True

-- A connection with `n` commands, whose first `k` replies have been read, in the middle of reading
-- `line`.
structure Awaiting (k n : Nat) (current : Option (Sent serde)) (line : List Char)
    (c : Connection serde) : Prop where
  asked : c.commands.length = n
  kept : k ≤ c.replies.length
  atMost : c.replies.length ≤ n
  reading : match current with
    | none => line = [] ∧ c.rest = []
    | some m => m.message.line = line ++ c.rest ∧ c.rest ≠ []
  pending : (current.toList ++ c.queue).filterMap Sent.reply? = c.replies.drop k

namespace Awaiting

variable {k n : Nat} {current : Option (Sent serde)} {line : List Char} {c : Connection serde}

-- Whatever QEMU does, the client goes on waiting for the same reply.
theorem idle (h : Awaiting k n current line c) (a : Happening serde) :
    Awaiting k n current line (c.idle a) := by
  have hwrite : ∀ e, Awaiting k n current line (c.write (.event e)) := by
    intro e
    unfold Connection.write
    split
    · exact h
    · refine ⟨h.asked, h.kept, h.atMost, h.reading, ?_⟩
      rw [← h.pending]
      simp only [← List.append_assoc, List.filterMap_append, List.filterMap_cons, Sent.reply?,
        List.filterMap_nil, List.append_nil]
  cases a with
  | arrives => exact h
  | failed _ => exact h
  | event e => exact hwrite e
  | closes => exact ⟨h.asked, h.kept, h.atMost, h.reading, h.pending⟩
  | answer r =>
      show Awaiting k n current line (c.answer r)
      unfold Connection.answer
      split
      · exact h
      · rename_i hopen
        have hroom : c.replies.length < c.commands.length := by
          rw [not_or, Nat.not_le] at hopen
          exact hopen.2
        have hasked := h.asked
        have hkept := h.kept
        refine ⟨h.asked, ?_, ?_, h.reading, ?_⟩
        · simp only [List.length_append, List.length_singleton]
          omega
        · simp only [List.length_append, List.length_singleton]
          omega
        · rw [List.drop_append_of_le_length hkept, ← h.pending]
          simp only [← List.append_assoc, List.filterMap_append, List.filterMap_cons, Sent.reply?,
            List.filterMap_nil]

-- The next character comes from the line that is being read, or starts the next one.
theorem next (h : Awaiting k n current line c) {ch : Char} {c' : Connection serde}
    (hnext : c.next = some (ch, c')) :
    ∃ m : Sent serde, m.message.line = line ++ ch :: c'.rest ∧ c'.commands = c.commands ∧
      c'.replies = c.replies ∧ (m :: c'.queue).filterMap Sent.reply? = c.replies.drop k := by
  obtain ⟨-, -, -, hreading, hpending⟩ := h
  unfold Connection.next at hnext
  split at hnext
  · rename_i head rest hrest
    cases hnext
    cases current with
    | none => exact absurd (hrest.symm.trans hreading.2) (List.cons_ne_nil _ _)
    | some m => exact ⟨m, by rw [hreading.1, hrest], rfl, rfl, hpending⟩
  · rename_i m queue hrest hqueue
    split at hnext
    · rename_i head rest hline
      cases hnext
      cases current with
      | none =>
          rw [hqueue] at hpending
          exact ⟨m, by rw [hreading.1, hline]; rfl, rfl, rfl, hpending⟩
      | some m' => exact absurd hrest hreading.2
    · cases hnext
  · cases hnext

-- At the end of the stream there is no line to finish.
theorem ended (h : Awaiting k n current line c) (hnext : c.next = none) :
    current = none ∧ line = [] := by
  obtain ⟨-, -, -, hreading, -⟩ := h
  cases current with
  | none => exact ⟨rfl, hreading.1⟩
  | some m =>
      unfold Connection.next at hnext
      obtain ⟨ch, rest, hrest⟩ := List.exists_cons_of_ne_nil hreading.2
      rw [hrest] at hnext
      cases hnext

-- Between two lines the client is not in the middle of one.
theorem between (h : Awaiting k n current line c) (hrest : c.rest = []) :
    Awaiting k n none [] c := by
  cases current with
  | none => exact ⟨h.asked, h.kept, h.atMost, ⟨rfl, hrest⟩, h.pending⟩
  | some m => exact absurd hrest h.reading.2

-- A command is one more to be answered.
theorem asks (h : Awaiting k n none [] c) (command : Json) :
    Awaiting k (n + 1) none [] { c with commands := c.commands ++ [command] } := by
  refine ⟨?_, h.kept, Nat.le_succ_of_le h.atMost, h.reading, h.pending⟩
  rw [List.length_append, List.length_singleton, h.asked]

end Awaiting

theorem settled_iff {c : Connection serde} :
    Settled c ↔ Awaiting c.commands.length c.commands.length none [] c := by
  constructor
  · intro h
    have hanswered := h.answered
    refine ⟨rfl, by omega, by omega, ⟨rfl, h.lineStart⟩, ?_⟩
    rw [← hanswered, List.drop_length]
    exact h.noReply
  · intro h
    have hanswered : c.replies.length = c.commands.length := Nat.le_antisymm h.atMost h.kept
    refine ⟨h.reading.2, ?_, hanswered⟩
    have hpending := h.pending
    rw [← hanswered, List.drop_length] at hpending
    exact hpending

-- The last character of a line is its only newline.
theorem line_split {m : Message serde} {l rest : List Char} (h : m.line = l ++ '\n' :: rest) :
    rest = [] := by
  have hline : m.text ++ ['\r'] ++ ['\n'] = l ++ '\n' :: rest := by
    rw [← h]
    simp [Message.line]
  have hfirst : '\n' ∉ m.text ++ ['\r'] := by
    simp [m.oneLine]
  rcases List.append_eq_append_iff.mp hline with ⟨a, rfl, ha⟩ | ⟨a, ha, hb⟩
  · cases a with
    | nil => simpa using ha.symm
    | cons x a =>
        have hlen := congrArg List.length ha
        simp at hlen
  · cases a with
    | nil => simpa using hb.symm
    | cons x a =>
        cases hb
        exact absurd (ha ▸ List.mem_append_right l List.mem_cons_self) hfirst

section Reading

variable {k n : Nat} {c c' : Connection serde} {hs hs' : List (Happening serde)}

-- A character that does not end the line is followed by another.
theorem Awaiting.goesOn {current : Option (Sent serde)} {line : List Char} {ch : Char}
    (h : Awaiting k n current line c) (hnext : c.next = some (ch, c')) (hch : ch ≠ '\n') :
    ∃ m, Awaiting k n (some m) (line ++ [ch]) c' := by
  obtain ⟨m, hline, hcommands, hreplies, hpending⟩ := h.next hnext
  have hgoes : c'.rest ≠ [] := by
    -- the line ends with a newline, and this is none
    intro hrest
    rw [hrest] at hline
    have hlast := congrArg List.getLast? hline
    simp only [Message.line, List.getLast?_append, List.getLast?_cons_cons,
      List.getLast?_singleton, Option.some_or, Option.some.injEq] at hlast
    exact hch hlast.symm
  refine ⟨m, by rw [hcommands]; exact h.asked, by rw [hreplies]; exact h.kept,
    by rw [hreplies]; exact h.atMost, ⟨?_, hgoes⟩, by rw [hreplies]; exact hpending⟩
  rw [hline, List.append_assoc]
  rfl

-- A line that is read to its end is one that QEMU has written, and no reply before it is skipped.
theorem readLine_ok {current : Option (Sent serde)} {line l : List Char}
    (h : Awaiting k n current line c) (hread : QmpClient.readLine serde line hs c = (.ok l, c', hs')) :
    l = [] ∧ Awaiting k n none [] c' ∨
      ∃ m : Sent serde, l = m.message.line ∧ c'.rest = [] ∧ c'.commands.length = n ∧
      k ≤ c'.replies.length ∧ c'.replies.length ≤ n ∧
      (m :: c'.queue).filterMap Sent.reply? = c'.replies.drop k := by
  induction hs generalizing current line c with
  | nil => cases hread
  | cons a hs ih =>
      cases a with
      | failed why => cases hread
      | event e => exact ih (h.idle (.event e)) hread
      | answer r => exact ih (h.idle (.answer r)) hread
      | closes => exact ih (h.idle .closes) hread
      | arrives =>
          rw [QmpClient.readLine] at hread
          cases hnext : c.next with
          | none =>
              simp only [hnext] at hread
              split at hread
              · cases hread
                obtain ⟨rfl, rfl⟩ := h.ended hnext
                exact Or.inl ⟨rfl, h⟩
              · exact ih h hread
          | some p =>
              obtain ⟨ch, c₁⟩ := p
              simp only [hnext] at hread
              split at hread
              · rename_i hch
                cases hread
                subst hch
                obtain ⟨m, hline, hcommands, hreplies, hpending⟩ := h.next hnext
                have hrest := line_split hline
                rw [hrest] at hline
                rw [← hreplies] at hpending
                exact Or.inr ⟨m, hline.symm, hrest, by rw [hcommands]; exact h.asked,
                  by rw [hreplies]; exact h.kept, by rw [hreplies]; exact h.atMost, hpending⟩
              · rename_i hch
                obtain ⟨m, hon⟩ := h.goesOn hnext hch
                exact ih hon hread

-- A read that fails loses no reply but the one it has begun.
theorem readLine_error {current : Option (Sent serde)} {line : List Char} {e : HvError}
    (h : Awaiting k n current line c)
    (hread : QmpClient.readLine serde line hs c = (.error e, c', hs')) :
    ∃ current' line', Awaiting k n current' line' c' := by
  induction hs generalizing current line c with
  | nil =>
      cases hread
      exact ⟨current, line, h⟩
  | cons a hs ih =>
      cases a with
      | failed why =>
          cases hread
          exact ⟨current, line, h⟩
      | event e => exact ih (h.idle (.event e)) hread
      | answer r => exact ih (h.idle (.answer r)) hread
      | closes => exact ih (h.idle .closes) hread
      | arrives =>
          rw [QmpClient.readLine] at hread
          cases hnext : c.next with
          | none =>
              simp only [hnext] at hread
              split at hread
              · cases hread
              · exact ih h hread
          | some p =>
              obtain ⟨ch, c₁⟩ := p
              simp only [hnext] at hread
              split at hread
              · cases hread
              · rename_i hch
                obtain ⟨m, hon⟩ := h.goesOn hnext hch
                exact ih hon hread

-- A message that is read is one that QEMU has sent.
theorem readMessage_ok {v : Json} (h : Awaiting k n none [] c)
    (hread : QmpClient.readMessage serde hs c = (.ok v, c', hs')) :
    ∃ m : Sent serde, v = m.message.value ∧ c'.rest = [] ∧ c'.commands.length = n ∧
      k ≤ c'.replies.length ∧ c'.replies.length ≤ n ∧
      (m :: c'.queue).filterMap Sent.reply? = c'.replies.drop k := by
  unfold QmpClient.readMessage at hread
  split at hread
  · cases hread
  · rename_i line c₁ hs₁ hline
    obtain ⟨rfl, -⟩ | ⟨m, rfl, hrest, hasked, hkept, hmost, hpending⟩ := readLine_ok h hline
    · rw [if_pos rfl] at hread
      cases hread
    · have hne : m.message.line ≠ [] := by simp [Message.line]
      have hparsed : serde.fromStr (String.ofList m.message.line) = .ok m.message.value :=
        m.message.parsed
      rw [if_neg hne] at hread
      simp only [hparsed] at hread
      cases hread
      exact ⟨m, rfl, hrest, hasked, hkept, hmost, hpending⟩

theorem readMessage_error {e : HvError} (h : Awaiting k n none [] c)
    (hread : QmpClient.readMessage serde hs c = (.error e, c', hs')) :
    ∃ current line, Awaiting k n current line c' := by
  unfold QmpClient.readMessage at hread
  split at hread
  · rename_i why c₁ hs₁ hline
    cases hread
    exact readLine_error h hline
  · rename_i line c₁ hs₁ hline
    obtain ⟨rfl, hended⟩ | ⟨m, rfl, -⟩ := readLine_ok h hline
    · rw [if_pos rfl] at hread
      cases hread
      exact ⟨none, [], hended⟩
    · -- a whole line is always valid JSON
      have hne : m.message.line ≠ [] := by simp [Message.line]
      have hparsed : serde.fromStr (String.ofList m.message.line) = .ok m.message.value :=
        m.message.parsed
      rw [if_neg hne] at hread
      simp only [hparsed] at hread
      cases hread

-- What `execute` makes of a reply.
def verdict (command : String) (r : Reply serde) : Except HvError Json :=
  match member r.value "return" with
  | some ret => .ok ret
  | none =>
      let err := (member r.value "error").getD .null
      .error (.engine s!"QMP command '{command}' failed: {serde.display err}")

-- A wait ends with the oldest reply that has not been read, or reading fails.
theorem awaitReply_cases {command : String} {fuel : Nat} {res : Except HvError Json}
    (h : Awaiting k n none [] c)
    (hrun : QmpClient.awaitReply serde command fuel hs c = (res, c')) :
    (∃ r, c'.replies[k]? = some r ∧ res = verdict command r ∧ Awaiting (k + 1) n none [] c') ∨
      (∃ e, res = .error e) ∧ ∃ current line, Awaiting k n current line c' := by
  induction fuel generalizing c hs with
  | zero =>
      cases hrun
      exact Or.inr ⟨⟨_, rfl⟩, none, [], h⟩
  | succ fuel ih =>
      rw [QmpClient.awaitReply] at hrun
      rcases hread : QmpClient.readMessage serde hs c with ⟨e | v, c₁, hs₁⟩
      · simp only [hread] at hrun
        cases hrun
        exact Or.inr ⟨⟨e, rfl⟩, readMessage_error h hread⟩
      · simp only [hread] at hrun
        obtain ⟨m, rfl, hrest, hasked, hkept, hmost, hpending⟩ := readMessage_ok h hread
        cases m with
        | event e =>
            have hreturn : member (Sent.event e).message.value "return" = none := e.noReturn
            have herror : member (Sent.event e).message.value "error" = none := e.noError
            simp only [hreturn, herror] at hrun
            exact ih ⟨hasked, hkept, hmost, ⟨rfl, hrest⟩, hpending⟩ hrun
        | reply r =>
            simp only [List.filterMap_cons, Sent.reply?] at hpending
            have hfirst : c₁.replies[k]? = some r := by
              have hhead := congrArg List.head? hpending
              rw [List.head?_cons, List.head?_drop] at hhead
              exact hhead.symm
            have hleft : c₁.queue.filterMap Sent.reply? = c₁.replies.drop (k + 1) := by
              rw [← List.tail_drop, ← hpending]
              rfl
            have hread : k + 1 ≤ c₁.replies.length := (List.getElem?_eq_some_iff.mp hfirst).1
            have hdone : ∀ {x : Except HvError Json}, (x, c₁) = (res, c') →
                x = verdict command r → (∃ r, c'.replies[k]? = some r ∧
                  res = verdict command r ∧ Awaiting (k + 1) n none [] c') ∨
                  (∃ e, res = .error e) ∧ ∃ current line, Awaiting k n current line c' := by
              intro x hx hverdict
              cases hx
              exact Or.inl ⟨r, hfirst, hverdict, hasked, hread, hmost, ⟨rfl, hrest⟩, hleft⟩
            cases hreturn : member r.value "return" with
            | some ret =>
                have hreturn' : member (Sent.reply r).message.value "return" = some ret := hreturn
                simp only [hreturn'] at hrun
                exact hdone hrun (by simp only [verdict, hreturn])
            | none =>
                obtain ⟨err, herror⟩ := Option.ne_none_iff_exists'.mp
                  (r.answers.resolve_left fun hne => hne hreturn)
                have hreturn' : member (Sent.reply r).message.value "return" = none := hreturn
                have herror' : member (Sent.reply r).message.value "error" = some err := herror
                simp only [hreturn', herror'] at hrun
                exact hdone hrun (by simp only [verdict, hreturn, herror, Option.getD_some])

-- A call takes the oldest reply that has not been read, or reading fails.
theorem execute_takes (h : Awaiting k n none [] c) (command : String) (arguments : Option Json)
    (hs : List (Happening serde)) :
    (∃ r, (QmpClient.execute serde command arguments hs c).2.replies[k]? = some r ∧
        (QmpClient.execute serde command arguments hs c).1 = verdict command r ∧
        Awaiting (k + 1) (n + 1) none [] (QmpClient.execute serde command arguments hs c).2) ∨
      (∃ e, (QmpClient.execute serde command arguments hs c).1 = .error e) ∧
        ∃ current line,
          Awaiting k (n + 1) current line (QmpClient.execute serde command arguments hs c).2 :=
  awaitReply_cases (h.asks (QmpClient.request command arguments)) rfl

end Reading

-- A call on a settled connection ends with the reply to its own command, and leaves the connection
-- settled, or reading fails.
theorem execute_cases {c : Connection serde} (h : Settled c) (command : String)
    (arguments : Option Json) (hs : List (Happening serde)) :
    (∃ r, (QmpClient.execute serde command arguments hs c).2.replies[c.commands.length]? = some r ∧
        (QmpClient.execute serde command arguments hs c).1 = verdict command r ∧
        Settled (QmpClient.execute serde command arguments hs c).2) ∨
      ∃ e, (QmpClient.execute serde command arguments hs c).1 = .error e := by
  obtain ⟨r, hr, hres, hafter⟩ | ⟨he, -⟩ :=
    execute_takes (settled_iff.mp h) command arguments hs
  · refine Or.inl ⟨r, hr, hres, settled_iff.mpr ?_⟩
    have hasked := hafter.asked
    rwa [← hasked] at hafter
  · exact Or.inr he

-- As long as calls end with a reply, the connection stays settled.
theorem settled_execute {c : Connection serde} (h : Settled c) {command : String}
    {arguments : Option Json} {hs : List (Happening serde)} {v : Json}
    (hok : (QmpClient.execute serde command arguments hs c).1 = .ok v) :
    Settled (QmpClient.execute serde command arguments hs c).2 := by
  obtain ⟨r, -, -, hsettled⟩ | ⟨e, he⟩ := execute_cases h command arguments hs
  · exact hsettled
  · rw [hok] at he
    cases he

theorem settled_idle {c : Connection serde} (h : Settled c) (a : Happening serde) :
    Settled (c.idle a) := by
  cases a with
  | arrives => exact h
  | failed _ => exact h
  | closes => exact ⟨h.lineStart, h.noReply, h.answered⟩
  | event e =>
      show Settled (c.write (.event e))
      unfold Connection.write
      split
      · exact h
      · refine ⟨h.lineStart, ?_, h.answered⟩
        rw [List.filterMap_append, h.noReply]
        rfl
  | answer r =>
      show Settled (c.answer r)
      unfold Connection.answer
      rw [if_pos (Or.inr (Nat.le_of_eq h.answered.symm))]
      exact h

theorem paired_of_ready {c : Connection serde} {t : Turn serde} (h : Ready serde c t) :
    Paired serde c t := by
  cases t with
  | idle a => trivial
  | execute command arguments hs =>
      intro v hok
      obtain ⟨r, hr, hres, -⟩ | ⟨e, he⟩ := execute_cases h command arguments hs
      · refine ⟨r, hr, ?_⟩
        rw [hok] at hres
        unfold verdict at hres
        split at hres
        · rename_i ret hreturn
          rw [Except.ok.inj hres]
          exact hreturn
        · cases hres
      · rw [hok] at he
        cases he

def Returned (serde : Serde) (c : Connection serde) : Turn serde → Prop
  | .execute command arguments hs => ∃ v, (QmpClient.execute serde command arguments hs c).1 = .ok v
  | .idle _ => True

-- As long as calls return, the next call finds the connection settled.
theorem ready_of_returned {c : Connection serde} {turns : List (Turn serde)} (hc : Settled c)
    (h : Along (turn serde) (Returned serde) c turns) : Along (turn serde) (Ready serde) c turns := by
  refine h.strengthen Settled hc (fun s t hs ht => ?_) fun s t hs _ => ?_
  · cases t with
    | idle a => exact settled_idle hs a
    | execute command arguments happenings =>
        obtain ⟨v, hok⟩ := ht
        exact settled_execute hs hok
  · cases t with
    | idle a => trivial
    | execute command arguments happenings => exact hs

-- A connection whose peer has greeted.
def opened (greeting : Event serde) : Connection serde := ⟨[], [.event greeting], [], [], false⟩

-- A client that has connected starts on a settled connection.
theorem connect_settled {greeting : Event serde} {hs hs' : List (Happening serde)}
    {c' : Connection serde}
    (h : QmpClient.connect serde hs hs' (opened greeting) = (.ok (), c')) : Settled c' := by
  have hstart : Awaiting 0 0 none [] (opened greeting) :=
    ⟨rfl, Nat.zero_le _, Nat.le_refl _, ⟨rfl, rfl⟩, rfl⟩
  unfold QmpClient.connect at h
  rcases hread : QmpClient.readMessage serde hs (opened greeting) with ⟨e | v, c₁, hs₁⟩
  · simp only [hread] at h
    cases h
  · simp only [hread] at h
    obtain ⟨m, rfl, hrest, hasked, -, hmost, hpending⟩ := readMessage_ok hstart hread
    -- QEMU has been asked nothing yet, and has answered nothing
    have hnone : c₁.replies = [] := List.eq_nil_of_length_eq_zero (Nat.le_zero.mp hmost)
    rw [hnone, List.drop_nil] at hpending
    have hqueue : c₁.queue.filterMap Sent.reply? = [] := by
      rw [List.filterMap_eq_nil_iff] at hpending ⊢
      exact fun a ha => hpending a (List.mem_cons_of_mem _ ha)
    have hsettled : Settled c₁ := ⟨hrest, hqueue, by rw [hnone, hasked]; rfl⟩
    split at h
    · cases h
    · rcases hx : QmpClient.execute serde "qmp_capabilities" none hs' c₁ with ⟨e | v, c₂⟩
      · simp only [hx] at h
        cases h
      · simp only [hx] at h
        cases h
        have hok : (QmpClient.execute serde "qmp_capabilities" none hs' c₁).1 = .ok v := by rw [hx]
        have hnext := settled_execute hsettled hok
        rw [hx] at hnext
        exact hnext

-- Every call of a run gets the reply to its own command, as long as no call starts while an
-- earlier command still waits for its reply.
theorem replies_paired (serde : Serde) (c : Connection serde) (turns : List (Turn serde))
    (h : Along (turn serde) (Ready serde) c turns) : Along (turn serde) (Paired serde) c turns :=
  h.strengthen (fun _ => True) trivial (fun _ _ _ _ => trivial) fun _ _ _ ht => paired_of_ready ht

namespace Sample

def greets : Json := .obj [("QMP", .obj [("capabilities", .arr [])])]

def empty : Json := .obj [("return", .obj [])]

def running : Json := .obj [("return", .obj [("status", .str "running")])]

def stops : Json := .obj [("event", .str "STOP")]

def json : Serde where
  fromStr s :=
    if s = "\x7b\"QMP\": \x7b\"capabilities\": []\x7d\x7d\r\n" then .ok greets
    else if s = "\x7b\"return\": \x7b\x7d\x7d\r\n" then .ok empty
    else if s = "\x7b\"return\": \x7b\"status\": \"running\"\x7d\x7d\r\n" then .ok running
    else if s = "\x7b\"event\": \"STOP\"\x7d\r\n" then .ok stops
    else .error "expected value at line 1 column 1"
  display _ := ""

def greeting : Event json where
  text := "\x7b\"QMP\": \x7b\"capabilities\": []\x7d\x7d".toList
  value := greets
  oneLine := by decide
  parsed := rfl
  noReturn := rfl
  noError := rfl

-- QEMU's answer to a command without a result.
def done : Reply json where
  text := "\x7b\"return\": \x7b\x7d\x7d".toList
  value := empty
  oneLine := by decide
  parsed := rfl
  answers := Or.inl fun h => nomatch h

-- QEMU's answer to `query-status`.
def status : Reply json where
  text := "\x7b\"return\": \x7b\"status\": \"running\"\x7d\x7d".toList
  value := running
  oneLine := by decide
  parsed := rfl
  answers := Or.inl fun h => nomatch h

-- What QEMU reports when the guest has been stopped.
def stopped : Event json where
  text := "\x7b\"event\": \"STOP\"\x7d".toList
  value := stops
  oneLine := by decide
  parsed := rfl
  noReturn := rfl
  noError := rfl

-- All of a line arrives.
def line (m : Message json) : List (Happening json) := List.replicate m.line.length .arrives

-- A client that has connected.
def connected : Connection json :=
  (QmpClient.connect json (line greeting.toMessage) (.answer done :: line done.toMessage)
    (opened greeting)).2

end Sample

theorem replies_paired_patient :
    Along (turn Sample.json) (Paired Sample.json) Sample.connected
      [.execute "query-status" none (.answer Sample.status :: Sample.line Sample.status.toMessage),
        .execute "stop" none (.event Sample.stopped :: Sample.line Sample.stopped.toMessage ++
          .answer Sample.done :: Sample.line Sample.done.toMessage),
        .idle (.event Sample.stopped),
        .execute "cont" none (.answer Sample.done :: Sample.line Sample.stopped.toMessage ++
          Sample.line Sample.done.toMessage)] :=
  replies_paired Sample.json Sample.connected _
    ⟨⟨rfl, rfl, rfl⟩, ⟨rfl, rfl, rfl⟩, trivial, ⟨rfl, rfl, rfl⟩, trivial⟩

-- `query-status` times out, QEMU answers it then, and `stop` takes the answer for its own.
theorem replies_shifted :
    ¬∀ (serde : Serde) (greeting : Event serde) (hs hs' : List (Happening serde))
      (c : Connection serde) (turns : List (Turn serde)),
      QmpClient.connect serde hs hs' (opened greeting) = (.ok (), c) →
      Along (turn serde) (Paired serde) c turns := by
  intro h
  have hpaired := h Sample.json Sample.greeting (Sample.line Sample.greeting.toMessage)
    (.answer Sample.done :: Sample.line Sample.done.toMessage) Sample.connected
    [.execute "query-status" none [], .idle (.answer Sample.status),
      .execute "stop" none (Sample.line Sample.status.toMessage)] rfl
  obtain ⟨r, hr, -⟩ := hpaired.2.2.1 (.obj [("status", .str "running")]) rfl
  -- QEMU has not answered `stop`
  cases hr

end VMForge.Engine.Qmp
