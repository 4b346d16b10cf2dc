import VMForge.Guest.Channel

namespace VMForge.Guest

open JsonText

variable {φ γ : Type}

section Lines

variable {P : Python φ} {id : Nat} {o : Outcome φ} {buf rest after : Bytes} {lines : List Bytes}

-- The client goes through the lines one after the other.
theorem readLines_unlines {fuel : Nat} (h : buf ++ after = unlines lines)
    (hlines : ∀ l ∈ lines, 10 ∉ l) :
    match readLines P id fuel buf with
    | .inl (o, rest) => ∃ before line later, lines = before ++ line :: later ∧
        readResponse P id line = some o ∧ rest ++ after = unlines later
    | .inr rest => ∃ before later, lines = before ++ later ∧ rest ++ after = unlines later := by
  induction fuel generalizing buf lines with
  | zero => exact ⟨[], lines, rfl, h⟩
  | succ fuel ih =>
      rw [readLines]
      cases hcut : cutLine buf with
      | none => exact ⟨[], lines, rfl, h⟩
      | some p =>
          obtain ⟨line, next⟩ := p
          obtain ⟨later, rfl, hnext⟩ := cutLine_unlines h hlines hcut
          cases hline : readResponse P id line with
          | some o =>
              simp only [hline]
              exact ⟨[], line, later, rfl, hline, hnext⟩
          | none =>
              simp only [hline]
              have hrest := ih hnext fun l hl => hlines l (List.mem_cons_of_mem _ hl)
              cases hread : readLines P id fuel next with
              | inl r =>
                  rw [hread] at hrest
                  obtain ⟨before, taken, later', rfl, htaken, hafter⟩ := hrest
                  exact ⟨line :: before, taken, later', rfl, htaken, hafter⟩
              | inr r =>
                  rw [hread] at hrest
                  obtain ⟨before, later', rfl, hafter⟩ := hrest
                  exact ⟨line :: before, later', rfl, hafter⟩

-- A client takes nothing from a line that does not bear its id.
theorem bears_of_readResponse {line : Bytes} (h : readResponse P id line = some o)
    (ho : o.isResponse = true) : Bears P id line := by
  unfold readResponse at h
  split at h
  · cases h
  · cases hload : P.loads line with
    | error e =>
        rw [hload] at h
        cases e <;> cases h <;> cases ho
    | ok v =>
        rw [hload] at h
        cases v with
        | obj resp =>
            simp only at h
            split at h
            · rename_i hid
              exact ⟨resp, hload, hid⟩
            · cases h
        | _ =>
            cases h
            cases ho

end Lines

theorem forall₂_concat {α β : Type} {R : α → β → Prop} {as : List α} {a : α} {bs : List β}
    (h : List.Forall₂ R (as ++ [a]) bs) :
    ∃ bs' b, bs = bs' ++ [b] ∧ List.Forall₂ R as bs' ∧ R a b := by
  induction as generalizing bs with
  | nil =>
      obtain ⟨b, bs', hb, hnil, rfl⟩ := List.forall₂_cons_left_iff.mp h
      cases hnil
      exact ⟨[], b, rfl, .nil, hb⟩
  | cons x as ih =>
      obtain ⟨y, bs', hy, hrest, rfl⟩ := List.forall₂_cons_left_iff.mp h
      obtain ⟨bs'', b, rfl, hbs, hb⟩ := ih hrest
      exact ⟨y :: bs'', b, rfl, .cons hy hbs, hb⟩

section Answers

variable (G : Guest φ γ)

-- A line that answers a request.
def Answers (r : Request φ) (line : Bytes) : Prop :=
  ∃ res : Except Raised (Doc φ), line = encode (dumps G.floats (respond (.int r.id) res))

variable {G} {r : Request φ} {line : Bytes}

theorem Answers.oneLine (h : Answers G r line) : 10 ∉ line := by
  obtain ⟨res, rfl⟩ := h
  exact newline_notMem_encode (printable_dumps G.floats _)

theorem proper_respond (id : Nat) (res : Except Raised (Doc φ)) :
    ∃ (k : String) (body : Value φ), respond (.int id) res = .obj [(k, body), ("id", .int id)] ∧
      k ≠ "id" ∧ Proper (respond (.int id) res) := by
  cases res with
  | ok v => exact ⟨"return", v.val, rfl, by decide, proper_pair (by decide) v.property (.int _)⟩
  | error e =>
      refine ⟨"error", e.body, rfl, by decide, ?_⟩
      show Proper (.obj [("error", e.body), ("id", .int id)])
      rw [Raised.body_eq]
      exact proper_pair (by decide) (proper_errorBody _ _) (.int _)

-- An answer bears the id of its request only.
theorem Answers.bears {id : Nat} (h : Answers G r line) (hb : Bears G.toPython id line) :
    r.id = id := by
  obtain ⟨res, rfl⟩ := h
  obtain ⟨k, body, hrespond, hk, hproper⟩ := proper_respond r.id res
  obtain ⟨resp, hload, hid⟩ := hb
  have hfree := Python.unlimited_loads hload
  have hback : G.toPython.unlimited.loads (encode (dumps G.floats (respond (.int r.id) res))) =
      .ok (respond (.int r.id) res) := Python.loads_unlimited (P := G.toPython.unlimited) rfl hproper
  rw [hback, hrespond] at hfree
  simp only [Except.ok.injEq, Value.obj.injEq] at hfree
  subst hfree
  have hget : get [((k : PyStr), body), ("id", .int r.id)] "id" = .int r.id := by
    simp [get, Ne.symm hk]
  rw [hget] at hid
  have heq : (r.id : Int) = id := eq_of_beq hid
  exact Int.ofNat.inj heq

theorem strip_text (r : Request φ) :
    strip (r.text G.toPython) = r.text G.toPython ∧ r.text G.toPython ≠ [] :=
  ⟨strip_object _ _, object_ne_nil _ _⟩

theorem requestLines_texts {s : Bytes} {rs : List (Request φ)}
    (h : (splitLines s).1 = rs.map (Request.text G.toPython)) :
    requestLines s = rs.map (Request.text G.toPython) := by
  unfold requestLines
  rw [h, List.map_map, List.filter_eq_self.mpr]
  · exact List.map_congr_left fun r _ => (strip_text r).1
  · intro l hl
    obtain ⟨r, -, rfl⟩ := List.mem_map.mp hl
    simpa [(strip_text r).1] using (strip_text r).2

theorem answers_texts (hfree : G.limits = .none) (rs : List (Request φ)) (g : γ) :
    ∃ lines, List.Forall₂ (Answers G) rs lines ∧
      (answers G (rs.map (Request.text G.toPython)) g).1.map G.frame = lines.map (· ++ [10]) := by
  induction rs generalizing g with
  | nil => exact ⟨[], .nil, rfl⟩
  | cons r rs ih =>
      have hline : processLine G (r.text G.toPython) g = _ :=
        processLine_request hfree r.command r.arguments r.id g
      obtain ⟨lines, hlines, hwritten⟩ := ih (result G r.command r.arguments g).2
      refine ⟨encode (dumps G.floats (respond (.int r.id) (result G r.command r.arguments g).1)) ::
        lines, .cons ⟨_, rfl⟩ hlines, ?_⟩
      rw [List.map_cons, answers_cons, hline, List.map_cons, List.map_cons, hwritten, G.frame_eq]

end Answers

namespace Channel

variable (G : Guest φ γ)

-- The channel in the middle of a run: which requests have been answered, and by which lines.
structure Sound (w : Channel φ γ) (answered : List (Request φ)) (lines : List Bytes)
    (pending : List (Request φ)) : Prop where
  free : G.limits = .none
  up : w.agent.ended = false
  sent : w.sent = answered ++ pending
  channel : w.agent.channel = lines.map (· ++ [10])
  answers : List.Forall₂ (Answers G) answered lines
  requests : w.agent.buf ++ w.up = unlines (pending.map (Request.text G.toPython))
  received : w.received ≤ w.agent.channel.flatten.length

variable {G} {w : Channel φ γ} {answered pending : List (Request φ)} {lines : List Bytes}

theorem sound_opened (hfree : G.limits = .none) (g : γ) : Sound G (opened g) [] [] [] :=
  ⟨hfree, rfl, rfl, rfl, .nil, rfl, Nat.le_refl _⟩

theorem Sound.flatten (h : Sound G w answered lines pending) :
    w.agent.channel.flatten = unlines lines := by
  rw [h.channel]
  rfl

theorem Sound.length (h : Sound G w answered lines pending) :
    w.agent.channel.length = answered.length := by
  rw [h.channel, List.length_map, h.answers.length_eq]

-- The agent answers some of the requests that wait.
theorem Sound.agentReads (h : Sound G w answered lines pending) (n : Nat) :
    ∃ now later more, pending = now ++ later ∧ List.Forall₂ (Answers G) now more ∧
      Sound G (w.agentReads G n) (answered ++ now) (lines ++ more) later ∧
      (w.agentReads G n).waiting = w.waiting ++ unlines more := by
  have hup : (w.agent.buf ++ w.up.take n) ++ w.up.drop n =
      unlines (pending.map (Request.text G.toPython)) := by
    rw [List.append_assoc, List.take_append_drop]
    exact h.requests
  have htexts : ∀ l ∈ pending.map (Request.text G.toPython), 10 ∉ l := by
    intro l hl
    obtain ⟨r, -, rfl⟩ := List.mem_map.mp hl
    exact newline_notMem_encode (printable_dumps G.floats _)
  obtain ⟨rest, hpending, hrest⟩ := splitLines_unlines hup htexts
  obtain ⟨now, later, rfl, hnow, rfl⟩ := List.map_eq_append_iff.mp hpending
  obtain ⟨more, hmore, hwritten⟩ := answers_texts h.free now w.agent.guest
  have hwhole : ∀ _ : Nat, Accept.whole ≠ .fails := fun _ h => nomatch h
  have hreceive := receive_eq (fun _ => .whole) h.free hwhole h.up (w.up.take n)
  rw [requestLines_texts hnow.symm] at hreceive
  have hchannel : (w.agentReads G n).agent.channel =
      w.agent.channel ++ more.map (· ++ [10]) := by
    show (receive G (fun _ => .whole) w.agent (w.up.take n)).channel = _
    rw [hreceive, ← hwritten, ← written_whole G _ w.agent.writes]
    rfl
  refine ⟨now, later, more, rfl, hmore, ⟨h.free, ?_, ?_, ?_, ?_, ?_, ?_⟩, ?_⟩
  · show (receive G (fun _ => .whole) w.agent (w.up.take n)).ended = false
    rw [hreceive]
    exact h.up
  · show w.sent = _
    rw [h.sent, List.append_assoc]
  · rw [hchannel, h.channel, List.map_append]
  · exact List.rel_append h.answers hmore
  · show (receive G (fun _ => .whole) w.agent (w.up.take n)).buf ++ w.up.drop n = _
    rw [hreceive]
    exact hrest
  · rw [hchannel, List.flatten_append, List.length_append]
    exact Nat.le_trans h.received (Nat.le_add_right _ _)
  · unfold waiting
    rw [hchannel, List.flatten_append]
    exact List.drop_append_of_le_length h.received

-- A client waits for the response to the request `q`, the one after `k` others. Of the lines that
-- will come, only the last one can bear its id.
structure Listening (G : Guest φ γ) (w : Channel φ γ) (q : Request φ) (k : Nat) (buf : Bytes)
    (answered : List (Request φ)) (lines : List Bytes) (pending : List (Request φ))
    (stale own : List Bytes) : Prop where
  sound : Sound G w answered lines pending
  count : w.sent.length = k + 1
  stream : buf ++ w.waiting = unlines (stale ++ own)
  stale : ∀ l ∈ stale, 10 ∉ l ∧ ¬Bears G.toPython q.id l
  own : own = [] ∧ (∃ olds, pending = olds ++ [q] ∧ ∀ r ∈ olds, r.id ≠ q.id) ∨
    pending = [] ∧ (own = [] ∨ ∃ front line, own = [line] ∧ 10 ∉ line ∧ lines = front ++ [line])

section Listening

variable {q : Request φ} {k : Nat} {buf : Bytes} {stale own : List Bytes}

theorem Listening.oneLine (h : Listening G w q k buf answered lines pending stale own) :
    ∀ l ∈ stale ++ own, 10 ∉ l := by
  intro l hl
  obtain hl | hl := List.mem_append.mp hl
  · exact (h.stale l hl).1
  · obtain ⟨rfl, -⟩ | ⟨-, rfl | ⟨front, line, rfl, hline, -⟩⟩ := h.own
    · exact (List.not_mem_nil hl).elim
    · exact (List.not_mem_nil hl).elim
    · rw [List.mem_singleton.mp hl]
      exact hline

theorem stale_of_answers {olds : List (Request φ)} {more : List Bytes}
    (h : List.Forall₂ (Answers G) olds more) (holds : ∀ r ∈ olds, r.id ≠ q.id) :
    ∀ l ∈ more, 10 ∉ l ∧ ¬Bears G.toPython q.id l := by
  induction h with
  | nil => exact fun l hl => (List.not_mem_nil hl).elim
  | cons hr _ ih =>
      intro l hl
      obtain rfl | hl := List.mem_cons.mp hl
      · exact ⟨hr.oneLine, fun hb => holds _ List.mem_cons_self (hr.bears hb)⟩
      · exact ih (fun r hr => holds r (List.mem_cons_of_mem _ hr)) l hl

theorem Listening.agentReads (h : Listening G w q k buf answered lines pending stale own) (n : Nat) :
    ∃ answered' lines' pending' stale' own',
      Listening G (w.agentReads G n) q k buf answered' lines' pending' stale' own' := by
  obtain ⟨now, later, more, hpending, hmore, hsound, hwaiting⟩ := h.sound.agentReads n
  have hcount : (w.agentReads G n).sent.length = k + 1 := h.count
  have hstream : buf ++ (w.agentReads G n).waiting = unlines (stale ++ own ++ more) := by
    rw [hwaiting, ← List.append_assoc, h.stream, unlines_append (stale ++ own)]
  obtain ⟨rfl, olds, hq, holds⟩ | ⟨rfl, hown⟩ := h.own
  · rw [List.append_nil] at hstream
    obtain rfl | ⟨rest, r, rfl⟩ := List.eq_nil_or_concat later
    · -- its own request is among the answered ones
      rw [List.append_nil] at hpending
      rw [← hpending, hq] at hmore
      obtain ⟨front, line, rfl, hfront, hline⟩ := forall₂_concat hmore
      refine ⟨_, _, _, stale ++ front, [line], hsound, hcount, ?_, ?_, ?_⟩
      · rw [hstream, List.append_assoc]
      · intro l hl
        obtain hl | hl := List.mem_append.mp hl
        · exact h.stale l hl
        · exact stale_of_answers hfront holds l hl
      · exact Or.inr ⟨rfl, Or.inr ⟨lines ++ front, line, rfl, hline.oneLine, by simp⟩⟩
    · rw [List.concat_eq_append] at hpending hsound
      rw [hq, ← List.append_assoc] at hpending
      obtain ⟨rfl, hr⟩ := List.append_inj' hpending rfl
      obtain rfl := List.cons.inj hr |>.1
      refine ⟨_, _, _, stale ++ more, [], hsound, hcount, ?_, ?_, ?_⟩
      · rw [List.append_nil]
        exact hstream
      · intro l hl
        obtain hl | hl := List.mem_append.mp hl
        · exact h.stale l hl
        · exact stale_of_answers hmore (fun r hr => holds r (List.mem_append_left _ hr)) l hl
      · exact Or.inl ⟨rfl, rest, rfl, fun r hr => holds r (List.mem_append_right _ hr)⟩
  · obtain ⟨rfl, rfl⟩ := List.append_eq_nil_iff.mp hpending.symm
    cases hmore
    rw [List.append_nil] at hstream
    refine ⟨_, _, _, stale, own, hsound, hcount, hstream, h.stale, Or.inr ⟨rfl, ?_⟩⟩
    rw [List.append_nil]
    exact hown

-- A receipt moves bytes from the channel to the client.
theorem Listening.recv (h : Listening G w q k buf answered lines pending stale own) (n : Nat) :
    Listening G { w with received := w.received + (w.waiting.take n).length } q k
      (buf ++ w.waiting.take n) answered lines pending stale own := by
  have hwaiting : waiting { w with received := w.received + (w.waiting.take n).length } =
      w.waiting.drop n := by
    show w.agent.channel.flatten.drop (w.received + (w.waiting.take n).length) = _
    rw [← List.drop_drop]
    show w.waiting.drop (w.waiting.take n).length = w.waiting.drop n
    rw [List.length_take]
    by_cases hn : n ≤ w.waiting.length
    · rw [Nat.min_eq_left hn]
    · rw [Nat.min_eq_right (by omega), List.drop_length, List.drop_eq_nil_of_le (by omega)]
  refine ⟨⟨h.sound.free, h.sound.up, h.sound.sent, h.sound.channel, h.sound.answers,
    h.sound.requests, ?_⟩, h.count, ?_, h.stale, h.own⟩
  · have hle := h.sound.received
    have htake : (w.waiting.take n).length ≤ w.agent.channel.flatten.length - w.received := by
      unfold waiting
      rw [List.length_take, List.length_drop]
      exact Nat.min_le_right _ _
    show w.received + (w.waiting.take n).length ≤ w.agent.channel.flatten.length
    omega
  · rw [hwaiting, List.append_assoc, List.take_append_drop]
    exact h.stream

-- Lines that end nothing are gone.
theorem Listening.skip {rest : Bytes} {before later : List Bytes}
    (h : Listening G w q k buf answered lines pending stale own)
    (hlines : stale ++ own = before ++ later) (hrest : rest ++ w.waiting = unlines later) :
    ∃ stale' own', Listening G w q k rest answered lines pending stale' own' := by
  have hnone : own = [] →
      ∃ stale' own', Listening G w q k rest answered lines pending stale' own' := by
    rintro rfl
    rw [List.append_nil] at hlines
    subst hlines
    refine ⟨later, [], h.sound, h.count, ?_, ?_, h.own⟩
    · rw [List.append_nil]
      exact hrest
    · exact fun l hl => h.stale l (List.mem_append_right _ hl)
  obtain ⟨hown, -⟩ | ⟨hpending, hown | ⟨front, line, rfl, hline, hfront⟩⟩ := h.own
  · exact hnone hown
  · exact hnone hown
  · obtain rfl | ⟨xs, x, rfl⟩ := List.eq_nil_or_concat later
    · refine ⟨[], [], h.sound, h.count, hrest, ?_, Or.inr ⟨hpending, Or.inl rfl⟩⟩
      exact fun l hl => (List.not_mem_nil hl).elim
    · rw [List.concat_eq_append, ← List.append_assoc] at hlines
      obtain ⟨rfl, hx⟩ := List.append_inj' hlines rfl
      obtain rfl := List.cons.inj hx |>.1
      rw [List.concat_eq_append] at hrest
      refine ⟨xs, [line], h.sound, h.count, hrest, ?_,
        Or.inr ⟨hpending, Or.inr ⟨front, line, rfl, hline, hfront⟩⟩⟩
      exact fun l hl => h.stale l (List.mem_append_right _ hl)

-- A line with the awaited id is the last one of all.
theorem Listening.took {rest line : Bytes} {before later : List Bytes} {o : Outcome φ}
    (h : Listening G w q k buf answered lines pending stale own)
    (hlines : stale ++ own = before ++ line :: later) (hrest : rest ++ w.waiting = unlines later)
    (hread : readResponse G.toPython q.id line = some o) (ho : o.isResponse = true) :
    w.agent.channel[k]? = some (line ++ [10]) ∧
      w.received - rest.length = (w.agent.channel.take (k + 1)).flatten.length := by
  have hbears := bears_of_readResponse hread ho
  have hfresh : ∀ xs, stale ≠ before ++ line :: xs := by
    rintro xs rfl
    exact (h.stale line (by simp)).2 hbears
  obtain ⟨rfl, -⟩ | ⟨rfl, rfl | ⟨front, own, rfl, -, hfront⟩⟩ := h.own
  · rw [List.append_nil] at hlines
    exact absurd hlines (hfresh later)
  · rw [List.append_nil] at hlines
    exact absurd hlines (hfresh later)
  · obtain rfl | ⟨xs, x, rfl⟩ := List.eq_nil_or_concat later
    · obtain ⟨-, hown⟩ := List.append_inj' hlines rfl
      obtain rfl := List.cons.inj hown |>.1
      obtain ⟨rfl, hdrained⟩ := List.append_eq_nil_iff.mp hrest
      have hcount : lines.length = k + 1 := by
        rw [← h.sound.answers.length_eq, ← h.count, h.sound.sent, List.append_nil]
      have hlen : w.agent.channel.length = k + 1 := by rw [h.sound.channel, List.length_map, hcount]
      constructor
      · have hk : front.length = k := by
          rw [hfront, List.length_append, List.length_singleton] at hcount
          omega
        rw [h.sound.channel, hfront, List.map_append, ← hk]
        simp
      · have hall : w.agent.channel.flatten.length ≤ w.received := List.drop_eq_nil_iff.mp hdrained
        have hle := h.sound.received
        rw [List.take_of_length_le (by omega), List.length_nil]
        omega
    · rw [List.concat_eq_append, ← List.cons_append, ← List.append_assoc] at hlines
      exact absurd (List.append_inj' hlines rfl).1 (hfresh xs)

theorem Listening.listen (moves : List Move)
    (h : Listening G w q k buf answered lines pending stale own) :
    let ((o, stop), w') := listen G q.id buf moves w
    (∃ answered lines pending, Sound G w' answered lines pending) ∧
      (o.isResponse = true → ∃ line, w'.agent.channel[k]? = some (line ++ [10]) ∧
        readResponse G.toPython q.id line = some o ∧
        stop = (w'.agent.channel.take (k + 1)).flatten.length) := by
  induction moves generalizing w buf answered lines pending stale own with
  | nil => exact ⟨⟨_, _, _, h.sound⟩, fun ho => nomatch ho⟩
  | cons move moves ih =>
      cases move with
      | timeout => exact ⟨⟨_, _, _, h.sound⟩, fun ho => nomatch ho⟩
      | closed => exact ⟨⟨_, _, _, h.sound⟩, fun ho => nomatch ho⟩
      | agentReads n =>
          obtain ⟨_, _, _, _, _, hnext⟩ := h.agentReads n
          rw [Channel.listen]
          exact ih hnext
      | recv n =>
          rw [Channel.listen]
          by_cases hchunk : w.waiting.take n = []
          · simp only [if_pos hchunk]
            exact ih h
          · simp only [if_neg hchunk]
            have hrecv := h.recv n
            have hread := @readLines_unlines φ G.toPython q.id _ _ _
              ((buf ++ w.waiting.take n).length + 1) hrecv.stream hrecv.oneLine
            cases hlines : readLines G.toPython q.id ((buf ++ w.waiting.take n).length + 1)
                (buf ++ w.waiting.take n) with
            | inl r =>
                rw [hlines] at hread
                obtain ⟨before, line, later, hsplit, hline, hrest⟩ := hread
                exact ⟨⟨_, _, _, hrecv.sound⟩, fun ho =>
                  have htook := hrecv.took hsplit hrest hline ho
                  ⟨line, htook.1, hline, htook.2⟩⟩
            | inr rest =>
                rw [hlines] at hread
                obtain ⟨before, later, hsplit, hrest⟩ := hread
                obtain ⟨_, _, hnext⟩ := hrecv.skip hsplit hrest
                exact ih hnext

end Listening

theorem Sound.waiting (h : Sound G w answered lines pending) :
    unlines (splitLines w.waiting).1 = w.waiting := by
  have hsplit : w.agent.channel.flatten.take w.received ++ w.waiting = unlines lines := by
    rw [← h.flatten]
    exact List.take_append_drop _ _
  exact unlines_suffix hsplit

theorem Sound.listening (h : Sound G w answered lines pending) {client : Nat} {command : String}
    {arguments : Doc φ} {moves : List Move}
    (hclear : Clear G w (.execute client command arguments moves)) :
    Listening G (w.send G client ⟨command, arguments, w.ids client + 1⟩)
      ⟨command, arguments, w.ids client + 1⟩ w.sent.length [] answered lines
      (pending ++ [⟨command, arguments, w.ids client + 1⟩]) (splitLines w.waiting).1 [] := by
  obtain ⟨hstale, hpending⟩ := hclear
  rw [h.length, h.sent, List.drop_left] at hpending
  refine ⟨⟨h.free, h.up, ?_, h.channel, h.answers, ?_, h.received⟩, ?_, ?_, ?_, ?_⟩
  · show w.sent ++ [_] = _
    rw [h.sent, List.append_assoc]
  · show w.agent.buf ++ (w.up ++ _) = _
    rw [← List.append_assoc, h.requests, List.map_append, unlines_append, List.map_singleton,
      unlines_cons, unlines_nil]
  · show (w.sent ++ [_]).length = _
    rw [List.length_append, List.length_singleton]
  · rw [List.append_nil]
    exact h.waiting.symm
  · exact fun l hl => ⟨(splitLines_spec w.waiting).2.1 l hl, hstale l hl⟩
  · exact Or.inl ⟨rfl, pending, rfl, hpending⟩

theorem Sound.turn (h : Sound G w answered lines pending) {t : Turn φ} (hclear : Clear G w t) :
    (∃ answered lines pending, Sound G (turn G w t) answered lines pending) ∧ Own G w t := by
  cases t with
  | execute client command arguments moves =>
      have hlisten := (h.listening hclear).listen moves
      exact hlisten
  | agentReads n =>
      obtain ⟨_, _, _, _, _, hnext, -⟩ := h.agentReads n
      exact ⟨⟨_, _, _, hnext⟩, trivial⟩

end Channel

-- In a run in which nothing that is still to come bears the id of the next call, every call takes
-- its own response, whoever made the calls before and whatever became of them. Python has no limits
-- there.
theorem responses_own (G : Guest φ γ) (g : γ) (turns : List (Turn φ))
    (h : Along (Channel.turn G.unlimited) (Channel.Clear G.unlimited) (.opened g) turns) :
    Along (Channel.turn G.unlimited) (Channel.Own G.unlimited) (.opened g) turns :=
  h.strengthen
    (fun w => ∃ answered lines pending, Channel.Sound G.unlimited w answered lines pending)
    ⟨_, _, _, Channel.sound_opened rfl g⟩ (fun _ _ ⟨_, _, _, hw⟩ ht => (hw.turn ht).1)
    fun _ _ ⟨_, _, _, hw⟩ ht => (hw.turn ht).2

namespace Sample

-- Whether a line is one that a client waiting for `id` takes, so that it can be computed.
def bears (id : Nat) (line : Bytes) : Bool :=
  match guest.unlimited.loads line with
  | .ok (.obj resp) => equals guest.toPython id (get resp "id")
  | _ => false

theorem bears_of {id : Nat} {line : Bytes} (h : Bears guest.unlimited.toPython id line) :
    bears id line = true := by
  obtain ⟨resp, hload, hid⟩ := h
  unfold bears
  rw [hload]
  exact hid

def ping : Turn Unit := .execute 0 "ping" ⟨.null, .null⟩ [.timeout]

-- The agent answers the `ping` of a client that no longer waits.
def answered : Channel Unit Unit :=
  (Channel.turn guest.unlimited (.opened ()) ping).agentReads guest.unlimited 100

def shutdown : Turn Unit := .execute 1 "shutdown" ⟨.null, .null⟩ [.recv 100]

end Sample

-- The second `ping` of a client is answered late, and the first call of the next client passes over
-- the answer. A third one has not been read yet when the next client calls for the second time.
theorem responses_own_patient :
    Along (Channel.turn Sample.guest.unlimited) (Channel.Own Sample.guest.unlimited) (.opened ())
      [.execute 0 "ping" ⟨.null, .null⟩ [.agentReads 100, .recv 100],
        .execute 0 "ping" ⟨.null, .null⟩ [.timeout], .agentReads 100,
        .execute 1 "ping" ⟨.null, .null⟩ [.recv 10, .agentReads 100, .recv 100],
        .execute 0 "ping" ⟨.null, .null⟩ [.timeout],
        .execute 1 "ping" ⟨.null, .null⟩ [.agentReads 100, .recv 100]] := by
  have hlines : ∀ {w : Channel Unit Unit} {id : Nat},
      (splitLines w.waiting).1.all (fun line => !Sample.bears id line) = true →
        ∀ line ∈ (splitLines w.waiting).1, ¬Bears Sample.guest.unlimited.toPython id line := by
    intro w id hall line hline hbears
    have hno := List.all_eq_true.mp hall line hline
    rw [Sample.bears_of hbears] at hno
    cases hno
  apply responses_own
  refine ⟨⟨hlines ?_, ?_⟩, ⟨hlines ?_, ?_⟩, trivial, ⟨hlines ?_, ?_⟩, ⟨hlines ?_, ?_⟩,
    ⟨hlines ?_, ?_⟩, trivial⟩
  all_goals decide +kernel

-- A `ping` times out, the agent answers it, and the first call of the next client, which has the
-- same id, takes the answer.
theorem response_taken :
    ¬∀ (G : Guest Unit Unit) (turns : List (Turn Unit)),
      Along (Channel.turn G) (Channel.Own G) (.opened ()) turns := by
  intro h
  have hown : Channel.Own Sample.guest.unlimited Sample.answered Sample.shutdown :=
    (h Sample.guest.unlimited [Sample.ping, .agentReads 100, Sample.shutdown]).2.2.1
  have hresponse : (Sample.answered.execute Sample.guest.unlimited 1 "shutdown" ⟨.null, .null⟩
      [.recv 100]).1.1.isResponse = true := by decide +kernel
  have hunanswered : (Sample.answered.execute Sample.guest.unlimited 1 "shutdown" ⟨.null, .null⟩
      [.recv 100]).2.agent.channel[Sample.answered.sent.length]? = none := by decide +kernel
  obtain ⟨line, hline, -⟩ := hown hresponse
  rw [hunanswered] at hline
  cases hline

end VMForge.Guest
