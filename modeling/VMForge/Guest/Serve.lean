import VMForge.Guest.Agent
import VMForge.Base.JsonText.Limits

namespace VMForge.Guest

open JsonText

-- The complete lines of a stream, and what follows the last of them.
def splitLines : Bytes → List Bytes × Bytes
  | [] => ([], [])
  | b :: bs =>
      if b = 10 then ([] :: (splitLines bs).1, (splitLines bs).2)
      else
        match splitLines bs with
        | ([], rest) => ([], b :: rest)
        | (line :: lines, rest) => ((b :: line) :: lines, rest)

-- The lines that an agent answers.
def requestLines (stream : Bytes) : List Bytes :=
  ((splitLines stream).1.map strip).filter (· ≠ [])

section Lines

theorem splitLines_none {buf : Bytes} (h : cutLine buf = none) : splitLines buf = ([], buf) := by
  induction buf with
  | nil => rfl
  | cons b bs ih =>
      rw [cutLine] at h
      split at h
      · cases h
      · rename_i hb
        have hbs := ih (Option.map_eq_none_iff.mp h)
        rw [splitLines, if_neg hb, hbs]

theorem splitLines_some {buf line rest : Bytes} (h : cutLine buf = some (line, rest)) :
    splitLines buf = (line :: (splitLines rest).1, (splitLines rest).2) := by
  induction buf generalizing line with
  | nil => cases h
  | cons b bs ih =>
      rw [cutLine] at h
      split at h
      · rename_i hb
        cases h
        rw [splitLines, if_pos hb]
      · rename_i hb
        obtain ⟨⟨line', rest'⟩, hcut, he⟩ := Option.map_eq_some_iff.mp h
        cases he
        rw [splitLines, if_neg hb, ih hcut]

theorem cutLine_eq {buf line rest : Bytes} (h : cutLine buf = some (line, rest)) :
    buf = line ++ 10 :: rest ∧ 10 ∉ line := by
  induction buf generalizing line with
  | nil => cases h
  | cons b bs ih =>
      rw [cutLine] at h
      split at h
      · rename_i hb
        cases h
        exact ⟨by rw [hb]; rfl, List.not_mem_nil⟩
      · rename_i hb
        obtain ⟨⟨line', rest'⟩, hcut, he⟩ := Option.map_eq_some_iff.mp h
        cases he
        obtain ⟨hbs, hline⟩ := ih hcut
        refine ⟨by rw [hbs]; rfl, ?_⟩
        simp only [List.mem_cons, not_or]
        exact ⟨fun h => hb h.symm, hline⟩

theorem cutLine_append {line : Bytes} (h : 10 ∉ line) (rest : Bytes) :
    cutLine (line ++ 10 :: rest) = some (line, rest) := by
  induction line with
  | nil => rfl
  | cons b line ih =>
      simp only [List.mem_cons, not_or] at h
      rw [List.cons_append, cutLine, if_neg (fun hb => h.1 hb.symm), ih h.2]
      rfl

theorem cutLine_eq_none {s : Bytes} : cutLine s = none ↔ 10 ∉ s := by
  induction s with
  | nil => simp [cutLine]
  | cons b bs ih =>
      rw [cutLine, List.mem_cons, not_or, ← ih]
      by_cases hb : b = 10
      · simp [hb]
      · simp [hb, Ne.symm hb]

theorem splitLines_append (s t : Bytes) :
    splitLines (s ++ t) =
      ((splitLines s).1 ++ (splitLines ((splitLines s).2 ++ t)).1,
        (splitLines ((splitLines s).2 ++ t)).2) := by
  induction hn : s.length using Nat.strongRecOn generalizing s with
  | ind n ih =>
      cases hcut : cutLine s with
      | none => rw [splitLines_none hcut, List.nil_append]
      | some p =>
          obtain ⟨line, rest⟩ := p
          obtain ⟨hs, hline⟩ := cutLine_eq hcut
          have hshort : rest.length < n := by
            rw [← hn, hs, List.length_append, List.length_cons]
            omega
          have hcut' : cutLine (s ++ t) = some (line, rest ++ t) := by
            rw [hs, List.append_assoc, List.cons_append]
            exact cutLine_append hline _
          rw [splitLines_some hcut, splitLines_some hcut', ih rest.length hshort rest rfl]
          rfl

theorem requestLines_append (s t : Bytes) :
    requestLines (s ++ t) = requestLines s ++ requestLines ((splitLines s).2 ++ t) := by
  unfold requestLines
  rw [splitLines_append, List.map_append, List.filter_append]

theorem splitLines_rest (s : Bytes) : splitLines (splitLines s).2 = ([], (splitLines s).2) := by
  induction hn : s.length using Nat.strongRecOn generalizing s with
  | ind n ih =>
      cases hcut : cutLine s with
      | none =>
          rw [splitLines_none hcut]
          exact splitLines_none hcut
      | some p =>
          obtain ⟨line, rest⟩ := p
          obtain ⟨hs, -⟩ := cutLine_eq hcut
          have hshort : rest.length < n := by
            rw [← hn, hs, List.length_append, List.length_cons]
            omega
          rw [splitLines_some hcut]
          exact ih rest.length hshort rest rfl

end Lines

variable {φ γ : Type} (G : Guest φ γ) (port : Port)

-- The responses to a list of request lines, and the guest after them.
def answers : List Bytes → γ → List (Value φ) × γ
  | [], g => ([], g)
  | line :: lines, g =>
      let (resp, g') := processLine G line g
      let (resps, g'') := answers lines g'
      (resp :: resps, g'')

-- What a write puts on the channel.
def Accept.take (accept : Accept) (data : Bytes) : Bytes :=
  match accept with
  | .whole => data
  | .part n => data.take n
  | .fails => []

-- What the writes from number `i` on put on the channel.
def written (i : Nat) (resps : List (Value φ)) : List Bytes :=
  (resps.zipIdx i).map fun (resp, j) => (port j).take (G.frame resp)

-- An agent that has answered some more lines.
def Agent.answered (a : Agent γ) (lines : List Bytes) (rest : Bytes) : Agent γ :=
  ⟨rest, (answers G lines a.guest).2, a.writes + lines.length,
    a.channel ++ written G port a.writes (answers G lines a.guest).1, a.ended⟩

theorem answers_cons (line : Bytes) (lines : List Bytes) (g : γ) :
    answers G (line :: lines) g =
      ((processLine G line g).1 :: (answers G lines (processLine G line g).2).1,
        (answers G lines (processLine G line g).2).2) := rfl

theorem answers_append (lines lines' : List Bytes) (g : γ) :
    answers G (lines ++ lines') g =
      ((answers G lines g).1 ++ (answers G lines' (answers G lines g).2).1,
        (answers G lines' (answers G lines g).2).2) := by
  induction lines generalizing g with
  | nil => rfl
  | cons line lines ih => rw [List.cons_append, answers_cons, answers_cons, ih]; rfl

theorem answers_length (lines : List Bytes) (g : γ) : (answers G lines g).1.length = lines.length := by
  induction lines generalizing g with
  | nil => rfl
  | cons line lines ih => rw [answers_cons, List.length_cons, ih, List.length_cons]

theorem written_cons (i : Nat) (resp : Value φ) (resps : List (Value φ)) :
    written G port i (resp :: resps) =
      (port i).take (G.frame resp) :: written G port (i + 1) resps := rfl

theorem Agent.answered_cons (a : Agent γ) (line : Bytes) (lines : List Bytes) (rest : Bytes) :
    a.answered G port (line :: lines) rest =
      Agent.answered G port ⟨a.buf, (processLine G line a.guest).2, a.writes + 1,
        a.channel ++ [(port a.writes).take (G.frame (processLine G line a.guest).1)], a.ended⟩
        lines rest := by
  simp only [Agent.answered, answers_cons, written_cons, List.length_cons, List.append_assoc,
    List.singleton_append, Agent.mk.injEq, true_and, and_true]
  omega

-- What becomes of an agent that has some more lines to answer: it answers all of them, or the first
-- response that `json.dumps` refuses ends it.
structure Agent.Handles (a : Agent γ) (lines : List Bytes) (rest : Bytes) (after : Agent γ) : Prop where
  answered : (∀ resp ∈ (answers G lines a.guest).1, G.writes resp = true) →
    after = a.answered G port lines rest
  ended : (¬∀ resp ∈ (answers G lines a.guest).1, G.writes resp = true) → after.ended = true
  channel : after.channel =
    a.channel ++ written G port a.writes ((answers G lines a.guest).1.takeWhile G.writes)

theorem Agent.handles_nil (a : Agent γ) : a.Handles G port [] a.buf a := by
  refine ⟨fun _ => ?_, fun h => ?_, ?_⟩
  · simp [Agent.answered, answers, written]
  · exact absurd (fun resp hresp => (List.not_mem_nil hresp).elim) h
  · simp [answers, written]

theorem Agent.handles_cons {a : Agent γ} {line : Bytes} {lines : List Bytes} {rest : Bytes}
    {after : Agent γ} (buf : Bytes) (hwrites : G.writes (processLine G line a.guest).1 = true)
    (h : Agent.Handles G port ⟨buf, (processLine G line a.guest).2, a.writes + 1,
      a.channel ++ [(port a.writes).take (G.frame (processLine G line a.guest).1)], a.ended⟩
      lines rest after) : a.Handles G port (line :: lines) rest after := by
  have hall : (∀ resp ∈ (answers G (line :: lines) a.guest).1, G.writes resp = true) ↔
      ∀ resp ∈ (answers G lines (processLine G line a.guest).2).1, G.writes resp = true := by
    rw [answers_cons, List.forall_mem_cons]
    exact ⟨fun h => h.2, fun h => ⟨hwrites, h⟩⟩
  refine ⟨fun hyes => ?_, fun hno => h.ended (fun hyes => hno (hall.mpr hyes)), ?_⟩
  · rw [Agent.answered_cons]
    exact h.answered (hall.mp hyes)
  · rw [h.channel, answers_cons, List.takeWhile_cons_of_pos hwrites, written_cons,
      List.append_assoc, List.singleton_append]

theorem Agent.handles_refused {a : Agent γ} {line : Bytes} {lines : List Bytes} {rest : Bytes}
    {after : Agent γ} (hwrites : G.writes (processLine G line a.guest).1 = false)
    (hended : after.ended = true) (hchannel : after.channel = a.channel) :
    a.Handles G port (line :: lines) rest after := by
  have hfirst : ¬∀ resp ∈ (answers G (line :: lines) a.guest).1, G.writes resp = true := by
    intro h
    have hline := h _ (by rw [answers_cons]; exact List.mem_cons_self)
    rw [hwrites] at hline
    cases hline
  refine ⟨fun h => absurd h hfirst, fun _ => hended, ?_⟩
  rw [hchannel, answers_cons, List.takeWhile_cons_of_neg (by rw [hwrites]; exact Bool.false_ne_true)]
  simp [written]

-- The loop answers the lines of the buffer one after the other.
theorem serveLines_handles (hport : ∀ i, port i ≠ .fails) {fuel : Nat} {a : Agent γ}
    (hfuel : a.buf.length < fuel) :
    a.Handles G port (requestLines a.buf) (splitLines a.buf).2 (serveLines G port fuel a) := by
  induction fuel generalizing a with
  | zero => exact absurd hfuel (Nat.not_lt_zero _)
  | succ fuel ih =>
      rw [serveLines]
      cases hcut : cutLine a.buf with
      | none =>
          have hlines : requestLines a.buf = [] := by rw [requestLines, splitLines_none hcut]; rfl
          rw [hlines, splitLines_none hcut]
          exact a.handles_nil G port
      | some p =>
          obtain ⟨line, rest⟩ := p
          have hshort : rest.length < fuel := by
            have hlen := congrArg List.length (cutLine_eq hcut).1
            rw [List.length_append, List.length_cons] at hlen
            omega
          have hrest : (splitLines a.buf).2 = (splitLines rest).2 := by rw [splitLines_some hcut]
          by_cases hblank : strip line = []
          · have hlines : requestLines a.buf = requestLines rest := by
              simp [requestLines, splitLines_some hcut, hblank]
            simp only [if_pos hblank]
            rw [hlines, hrest]
            have hnext := ih (a := { a with buf := rest }) hshort
            exact ⟨hnext.answered, hnext.ended, hnext.channel⟩
          · have hlines : requestLines a.buf = strip line :: requestLines rest := by
              simp [requestLines, splitLines_some hcut, hblank]
            rw [hlines, hrest]
            simp only [if_neg hblank]
            cases hwrites : G.writes (processLine G (strip line) a.guest).1 with
            | false =>
                simp only [Bool.false_eq_true, if_false]
                exact Agent.handles_refused G port hwrites rfl rfl
            | true =>
                simp only [if_true]
                apply Agent.handles_cons G port rest hwrites
                cases haccept : port a.writes with
                | fails => exact absurd haccept (hport _)
                | whole => exact ih (a := ⟨rest, _, _, _, _⟩) hshort
                | part n => exact ih (a := ⟨rest, _, _, _, _⟩) hshort

theorem receive_handles (hport : ∀ i, port i ≠ .fails) {a : Agent γ} (hup : a.ended = false)
    (chunk : Bytes) :
    a.Handles G port (requestLines (a.buf ++ chunk)) (splitLines (a.buf ++ chunk)).2
      (receive G port a chunk) := by
  have hreceive : receive G port a chunk =
      serveLines G port ((a.buf ++ chunk).length + 1) { a with buf := a.buf ++ chunk } := by
    rw [receive, hup]
    rfl
  have hfuel : ({ a with buf := a.buf ++ chunk } : Agent γ).buf.length <
      (a.buf ++ chunk).length + 1 := Nat.lt_succ_self _
  have hlines := serveLines_handles G port hport hfuel
  rw [hreceive]
  exact ⟨hlines.answered, hlines.ended, hlines.channel⟩

theorem serve_ended {a : Agent γ} (hended : a.ended = true) (chunks : List Bytes) :
    serve G port a chunks = a := by
  induction chunks with
  | nil => rfl
  | cons chunk chunks ih =>
      have hsame : receive G port a chunk = a := by rw [receive, hended]; rfl
      have hserve : serve G port a (chunk :: chunks) = serve G port (receive G port a chunk) chunks := rfl
      rw [hserve, hsame, ih]

theorem written_append (resps resps' : List (Value φ)) (i : Nat) :
    written G port i (resps ++ resps') =
      written G port i resps ++ written G port (i + resps.length) resps' := by
  induction resps generalizing i with
  | nil => rfl
  | cons resp resps ih =>
      rw [List.cons_append, written_cons, written_cons, ih, List.length_cons, List.cons_append,
        Nat.add_assoc, Nat.add_comm 1]

theorem Agent.answered_answered (a : Agent γ) (lines lines' : List Bytes) (rest rest' : Bytes) :
    Agent.answered G port (a.answered G port lines rest) lines' rest' =
      a.answered G port (lines ++ lines') rest' := by
  induction lines generalizing a with
  | nil => simp [Agent.answered, answers, written]
  | cons line lines ih => rw [Agent.answered_cons, List.cons_append, Agent.answered_cons, ih]

-- An agent that has not ended goes on with the next lines.
theorem Agent.Handles.trans {a b c : Agent γ} {lines lines' : List Bytes} {rest rest' : Bytes}
    (h : a.Handles G port lines rest b) (hup : a.ended = false)
    (hnext : b.ended = false → b.Handles G port lines' rest' c) (hstays : b.ended = true → c = b) :
    a.Handles G port (lines ++ lines') rest' c := by
  have hresps : (answers G (lines ++ lines') a.guest).1 =
      (answers G lines a.guest).1 ++ (answers G lines' (answers G lines a.guest).2).1 := by
    rw [answers_append]
  by_cases hall : ∀ resp ∈ (answers G lines a.guest).1, G.writes resp = true
  · have hb := h.answered hall
    have hguest : b.guest = (answers G lines a.guest).2 := by rw [hb]; rfl
    have hwrites : b.writes = a.writes + (answers G lines a.guest).1.length := by
      rw [hb, answers_length]
      rfl
    have hc := hnext (by rw [hb]; exact hup)
    refine ⟨fun hyes => ?_, fun hno => hc.ended fun hyes => hno ?_, ?_⟩
    · rw [hresps] at hyes
      rw [hc.answered (by rw [hguest]; exact fun r hr => hyes r (List.mem_append_right _ hr)), hb,
        Agent.answered_answered]
    · rw [hresps]
      rw [hguest] at hyes
      exact fun r hr => (List.mem_append.mp hr).elim (hall r) (hyes r)
    · have hfirst : b.channel = a.channel ++ written G port a.writes (answers G lines a.guest).1 := by
        rw [hb]
        rfl
      rw [hc.channel, hfirst, hguest, hwrites, hresps, List.takeWhile_append_of_pos hall,
        written_append, List.append_assoc]
  · have hended := h.ended hall
    have hc := hstays hended
    refine ⟨fun hyes => ?_, fun _ => ?_, ?_⟩
    · rw [hresps] at hyes
      exact absurd (fun r hr => hyes r (List.mem_append_left _ hr)) hall
    · rw [hc]
      exact hended
    · have hshort : ((answers G lines a.guest).1.takeWhile G.writes).length ≠
          (answers G lines a.guest).1.length := by
        intro hlen
        rw [← (List.takeWhile_prefix _).eq_of_length hlen] at hall
        exact hall fun r hr => List.mem_takeWhile_imp hr
      rw [hc, h.channel, hresps, List.takeWhile_append, if_neg hshort]

-- However a stream is cut into reads, the agent answers its lines.
theorem serve_handles (hport : ∀ i, port i ≠ .fails) (chunks : List Bytes) {a : Agent γ}
    (hbuf : splitLines a.buf = ([], a.buf)) (hup : a.ended = false) :
    a.Handles G port (requestLines (a.buf ++ chunks.flatten))
      (splitLines (a.buf ++ chunks.flatten)).2 (serve G port a chunks) := by
  induction chunks generalizing a with
  | nil =>
      have hlines : requestLines a.buf = [] := by rw [requestLines, hbuf]; rfl
      rw [List.flatten_nil, List.append_nil, hlines, hbuf]
      exact a.handles_nil G port
  | cons chunk chunks ih =>
      have hserve : serve G port a (chunk :: chunks) =
          serve G port (receive G port a chunk) chunks := rfl
      have hfirst := receive_handles G port hport hup chunk
      rw [hserve, List.flatten_cons, ← List.append_assoc, requestLines_append (a.buf ++ chunk),
        splitLines_append (a.buf ++ chunk)]
      refine hfirst.trans G port hup (fun hgoes => ?_) fun hended => serve_ended G port hended chunks
      have hrest : (receive G port a chunk).buf = (splitLines (a.buf ++ chunk)).2 := by
        by_contra hne
        have hall : ¬∀ resp ∈ (answers G (requestLines (a.buf ++ chunk)) a.guest).1,
            G.writes resp = true := by
          intro hyes
          rw [hfirst.answered hyes] at hne
          exact hne rfl
        rw [hfirst.ended hall] at hgoes
        cases hgoes
      have hsplit : splitLines (receive G port a chunk).buf = ([], (receive G port a chunk).buf) := by
        rw [hrest]
        exact splitLines_rest _
      have hnext := ih hsplit hgoes
      rw [hrest] at hnext
      exact hnext

-- What Python reads within its limits, it reads without them.
theorem Python.unlimited_loads {P : Python φ} {line : Bytes} {v : Value φ}
    (h : P.loads line = .ok v) : P.unlimited.loads line = .ok v := by
  unfold Python.loads at h ⊢
  have hdecode : P.unlimited.decode line = P.decode line := rfl
  rw [hdecode]
  cases htext : P.decode line with
  | none =>
      rw [htext] at h
      cases h
  | some text =>
      simp only [htext] at h
      exact loads_unlimited P.floats h

-- Python without limits writes every document.
theorem writes_unlimited {G : Guest φ γ} (hfree : G.limits = .none) (v : Value φ) :
    G.writes v = true := by
  unfold Python.writes
  rw [hfree]
  exact fits_none v

theorem serve_eq {G : Guest φ γ} (hfree : G.limits = .none) (hport : ∀ i, port i ≠ .fails)
    (chunks : List Bytes) {a : Agent γ} (hbuf : splitLines a.buf = ([], a.buf))
    (hup : a.ended = false) :
    serve G port a chunks =
      a.answered G port (requestLines (a.buf ++ chunks.flatten))
        (splitLines (a.buf ++ chunks.flatten)).2 :=
  (serve_handles G port hport chunks hbuf hup).answered fun resp _ => writes_unlimited hfree resp

theorem receive_eq {G : Guest φ γ} (hfree : G.limits = .none) (hport : ∀ i, port i ≠ .fails)
    {a : Agent γ} (hup : a.ended = false) (chunk : Bytes) :
    receive G port a chunk =
      a.answered G port (requestLines (a.buf ++ chunk)) (splitLines (a.buf ++ chunk)).2 :=
  (receive_handles G port hport hup chunk).answered fun resp _ => writes_unlimited hfree resp

-- Writes from number `i` on, each cut to what the port accepts.
def cutShort (port : Nat → Nat) : Nat → List Bytes → List Bytes
  | _, [] => []
  | i, data :: datas => data.take (port i) :: cutShort port (i + 1) datas

theorem written_part (port : Nat → Nat) (resps : List (Value φ)) (i : Nat) :
    written G (fun i => .part (port i)) i resps = cutShort port i (resps.map G.frame) := by
  induction resps generalizing i with
  | nil => rfl
  | cons resp resps ih =>
      rw [written_cons, ih]
      rfl

theorem written_whole (resps : List (Value φ)) (i : Nat) :
    written G (fun _ => .whole) i resps = resps.map G.frame := by
  induction resps generalizing i with
  | nil => rfl
  | cons resp resps ih =>
      rw [written_cons, ih]
      rfl

theorem cutShort_length_le (port : Nat → Nat) (datas : List Bytes) (i : Nat) :
    (cutShort port i datas).flatten.length ≤ datas.flatten.length := by
  induction datas generalizing i with
  | nil => exact Nat.le_refl _
  | cons data datas ih =>
      have hrest := ih (i + 1)
      rw [cutShort, List.flatten_cons, List.flatten_cons, List.length_append, List.length_append,
        List.length_take]
      omega

-- Writes that are cut short add up to the whole exactly if none is cut short.
theorem cutShort_flatten_iff (port : Nat → Nat) (datas : List Bytes) (i : Nat) :
    (cutShort port i datas).flatten = datas.flatten ↔
      ∀ j data, datas[j]? = some data → data.length ≤ port (i + j) := by
  induction datas generalizing i with
  | nil => simp [cutShort]
  | cons data datas ih =>
      rw [cutShort, List.flatten_cons, List.flatten_cons]
      constructor
      · intro h
        have hlen := congrArg List.length h
        have hrest := cutShort_length_le port datas (i + 1)
        rw [List.length_append, List.length_append, List.length_take] at hlen
        have hfirst : data.length ≤ port i := by omega
        rw [List.take_of_length_le hfirst] at h
        intro j d hj
        cases j with
        | zero =>
            obtain rfl := Option.some.inj hj
            exact hfirst
        | succ j =>
            have hd := (ih (i + 1)).mp (List.append_cancel_left h) j d hj
            rwa [Nat.add_right_comm] at hd
      · intro h
        have hfirst : data.length ≤ port i := h 0 data rfl
        rw [List.take_of_length_le hfirst, (ih (i + 1)).mpr]
        intro j d hj
        have hd := h (j + 1) d hj
        rwa [← Nat.add_assoc, Nat.add_right_comm] at hd

-- The channel gets all responses whole exactly if the port accepts each of them in one write, and
-- `json.dumps` refuses none: nobody looks at how much a write has accepted.
theorem responses_whole_iff (G : Guest φ γ) (g : γ) (port : Nat → Nat) (chunks : List Bytes) :
    (serve G (fun i => .part (port i)) (.opened g) chunks).channel.flatten =
        ((answers G (requestLines chunks.flatten) g).1.map G.frame).flatten ↔
      ∀ i resp, (answers G (requestLines chunks.flatten) g).1[i]? = some resp →
        (G.frame resp).length ≤ port i ∧ G.writes resp = true := by
  have hserve := (serve_handles G (fun i => .part (port i)) (fun _ h => nomatch h) chunks
    (a := .opened g) rfl rfl).channel
  rw [hserve]
  show ([] ++ written G (fun i => .part (port i)) 0
    ((answers G (requestLines chunks.flatten) g).1.takeWhile G.writes)).flatten = _ ↔ _
  generalize (answers G (requestLines chunks.flatten) g).1 = resps
  rw [List.nil_append, written_part]
  by_cases hall : ∀ resp ∈ resps, G.writes resp = true
  · have hwhole : resps.takeWhile G.writes = resps := List.takeWhile_eq_self_iff.mpr hall
    rw [hwhole, cutShort_flatten_iff]
    constructor
    · intro h i resp hresp
      have hle := h i (G.frame resp) (by rw [List.getElem?_map, hresp]; rfl)
      rw [Nat.zero_add] at hle
      exact ⟨hle, hall resp (List.mem_of_getElem? hresp)⟩
    · intro h i data hdata
      rw [List.getElem?_map] at hdata
      obtain ⟨resp, hresp, rfl⟩ := Option.map_eq_some_iff.mp hdata
      rw [Nat.zero_add]
      exact (h i resp hresp).1
  · -- the refused response is missing
    refine iff_of_false (fun heq => hall ?_) fun h => hall fun resp hresp => ?_
    · have hlen := congrArg List.length heq
      have hcut := cutShort_length_le port ((resps.takeWhile G.writes).map G.frame) 0
      have hsplit : (resps.map G.frame).flatten.length =
          ((resps.takeWhile G.writes).map G.frame).flatten.length +
            ((resps.dropWhile G.writes).map G.frame).flatten.length := by
        rw [← List.length_append, ← List.flatten_append, ← List.map_append,
          List.takeWhile_append_dropWhile]
      have hnone : ((resps.dropWhile G.writes).map G.frame).flatten = [] :=
        List.eq_nil_of_length_eq_zero (by omega)
      rw [← List.dropWhile_eq_nil_iff]
      cases hrest : resps.dropWhile G.writes with
      | nil => rfl
      | cons resp more =>
          rw [hrest, List.map_cons, List.flatten_cons, List.append_eq_nil_iff] at hnone
          have hframe := congrArg List.length hnone.1
          simp [Python.frame, encode, points] at hframe
    · obtain ⟨i, hi⟩ := List.getElem?_of_mem hresp
      exact (h i resp hi).2

-- A port that takes four bytes at a time cuts the response to a `ping`.
theorem response_cut :
    ¬∀ (port : Nat → Nat) (chunks : List Bytes), (∀ i, 1 ≤ port i) →
      (serve Sample.guest (fun i => .part (port i)) (.opened ()) chunks).channel.flatten =
        ((answers Sample.guest (requestLines chunks.flatten) ()).1.map
          Sample.guest.frame).flatten := by
  intro h
  have hping := h (fun _ => 4)
    [encode (points "\x7b\"execute\": \"ping\", \"id\": 1\x7d\n")] (fun _ => by decide)
  revert hping
  decide +kernel

end VMForge.Guest
