import VMForge.Guest.Client

namespace VMForge.Guest

open JsonText

variable {φ : Type}

-- How the reads of a call end if no line ends the call before: the wait is over, or the socket
-- raises `OSError`.
inductive Last where
  | timeout
  | osError

-- What the socket gives a call. A refused connection is an error before any bytes.
structure Try where
  chunks : List Bytes
  last : Last

section Polling

variable (P : Python φ)

-- What becomes of `execute`: `none` if it raises an `OSError`.
def attempt (id : Nat) (t : Try) : Option (Outcome φ) :=
  match (await P id [] (t.chunks.map .chunk)).1, t.last with
  | .timeout, .osError => none
  | o, _ => some o

-- Each `ping` has the next id. The error of an exception that is not caught is its message.
def waitReady (id : Nat) : List Try → Except String Bool
  | [] => .ok false
  | t :: ts =>
      match attempt P (id + 1) t with
      | some (.returned _) => .ok true
      | some (.raised message) => .error message
      | _ => waitReady (id + 1) ts

def waitDown (id : Nat) : List Try → Except String Bool
  | [] => .ok false
  | t :: ts =>
      match attempt P (id + 1) t with
      | some (.returned _) => waitDown (id + 1) ts
      | some (.raised message) => .error message
      | _ => .ok true

-- A line that the client passes over.
def Stale (id : Nat) (line : Bytes) : Prop :=
  strip line = [] ∨ ∃ resp, P.loads line = .ok (.obj resp) ∧ equals P id (get resp "id") = false

-- The response to the call.
def Mine (id : Nat) (line : Bytes) (resp : List (PyStr × Value φ)) : Prop :=
  strip line ≠ [] ∧ P.loads line = .ok (.obj resp) ∧ equals P id (get resp "id") = true

-- The lines up to the response are ones that the client can read, and whether it is a result.
inductive Reads (id : Nat) : List Bytes → Bool → Prop where
  | finished : Reads id [] false
  | stale {line : Bytes} {lines : List Bytes} {b : Bool} (hline : Stale P id line)
      (hrest : Reads id lines b) : Reads id (line :: lines) b
  | result {line : Bytes} {lines : List Bytes} {resp : List (PyStr × Value φ)}
      (hmine : Mine P id line resp) (hresult : member resp "error" = none) :
      Reads id (line :: lines) true
  | error {line : Bytes} {lines : List Bytes} {resp err : List (PyStr × Value φ)}
      (hmine : Mine P id line resp) (herror : member resp "error" = some (.obj err)) :
      Reads id (line :: lines) false

-- The complete lines that come before the stream is closed.
def Try.lines (t : Try) : List Bytes := (splitLines (t.chunks.takeWhile (· ≠ [])).flatten).1

-- A wait that `stop` ends: every call up to its end can be read.
inductive Waits (stop : Bool) : Nat → List Try → Prop where
  | finished {id : Nat} : Waits stop id []
  | stops {id : Nat} {t : Try} {ts : List Try} (hread : Reads P (id + 1) t.lines stop) :
      Waits stop id (t :: ts)
  | goesOn {id : Nat} {t : Try} {ts : List Try} (hread : Reads P (id + 1) t.lines (!stop))
      (hrest : Waits stop (id + 1) ts) : Waits stop id (t :: ts)

end Polling

section Lines

variable {P : Python φ} {id : Nat}

theorem readLines_eq {fuel : Nat} {buf : Bytes} (hfuel : buf.length < fuel) :
    match (splitLines buf).1.findSome? (readResponse P id) with
    | some o => ∃ rest, readLines P id fuel buf = .inl (o, rest)
    | none => readLines P id fuel buf = .inr (splitLines buf).2 := by
  induction fuel generalizing buf with
  | zero => exact absurd hfuel (Nat.not_lt_zero _)
  | succ fuel ih =>
      rw [readLines]
      cases hcut : cutLine buf with
      | none =>
          rw [splitLines_none hcut]
          rfl
      | some p =>
          obtain ⟨line, rest⟩ := p
          have hshort : rest.length < fuel := by
            have hlen := congrArg List.length (cutLine_eq hcut).1
            rw [List.length_append, List.length_cons] at hlen
            omega
          rw [splitLines_some hcut, List.findSome?_cons]
          simp only
          cases hread : readResponse P id line with
          | none => exact ih hshort
          | some o => exact ⟨rest, rfl⟩

-- The first line that does not go on with the next decides.
theorem await_chunks (chunks : List Bytes) {buf : Bytes} (hbuf : splitLines buf = ([], buf)) :
    (await P id buf (chunks.map .chunk)).1 =
      ((splitLines (buf ++ (chunks.takeWhile (· ≠ [])).flatten)).1.findSome?
        (readResponse P id)).getD (if [] ∈ chunks then .disconnected else .timeout) := by
  induction chunks generalizing buf with
  | nil =>
      rw [List.takeWhile_nil, List.flatten_nil, List.append_nil, hbuf]
      rfl
  | cons chunk chunks ih =>
      rw [List.map_cons, await]
      by_cases hnil : chunk = []
      · have hstop : ((chunk :: chunks).takeWhile (· ≠ [])) = [] := by simp [hnil]
        rw [if_pos hnil, hstop, List.flatten_nil, List.append_nil, hbuf, hnil,
          if_pos List.mem_cons_self]
        rfl
      · have hgo : ((chunk :: chunks).takeWhile (· ≠ [])) = chunk :: chunks.takeWhile (· ≠ []) := by
          simp [hnil]
        have hclosed : [] ∈ chunk :: chunks ↔ [] ∈ chunks := by
          simp [Ne.symm hnil]
        have hlines := @readLines_eq _ P id _ (buf ++ chunk) (Nat.lt_succ_self _)
        rw [if_neg hnil, hgo, List.flatten_cons, ← List.append_assoc, splitLines_append,
          List.findSome?_append]
        simp only [hclosed]
        cases hfirst : (splitLines (buf ++ chunk)).1.findSome? (readResponse P id) with
        | some o =>
            rw [hfirst] at hlines
            obtain ⟨rest, hread⟩ := hlines
            rw [hread]
            rfl
        | none =>
            rw [hfirst] at hlines
            have hread : readLines P id ((buf ++ chunk).length + 1) (buf ++ chunk) =
                .inr (splitLines (buf ++ chunk)).2 := hlines
            rw [hread, Option.none_or]
            exact ih (splitLines_rest _)

end Lines

-- Whether a call ends with a result, if it ends with no exception that is not caught.
def Outcome.ends : Outcome φ → Option Bool
  | .returned _ => some true
  | .raised _ => none
  | _ => some false

section Reads

variable {P : Python φ} {id : Nat} {line : Bytes}

theorem Mine.inj {resp resp' : List (PyStr × Value φ)} (h : Mine P id line resp)
    (h' : Mine P id line resp') : resp = resp' := by
  have hloads := h.2.1
  rw [h'.2.1] at hloads
  cases hloads
  rfl

theorem Mine.not_stale {resp : List (PyStr × Value φ)} (h : Mine P id line resp) :
    ¬Stale P id line := by
  rintro (hblank | ⟨resp', hloads, hid⟩)
  · exact h.1 hblank
  · rw [h.2.1] at hloads
    cases hloads
    rw [h.2.2] at hid
    cases hid

theorem stale_iff : Stale P id line ↔ readResponse P id line = none := by
  unfold Stale readResponse
  by_cases hblank : strip line = []
  · simp [hblank]
  · rw [if_neg hblank]
    simp only [hblank, false_or]
    cases hloads : P.loads line with
    | error e => cases e <;> simp
    | ok v =>
        cases v with
        | obj resp =>
            by_cases hid : equals P id (get resp "id") = true
            · simp [hid]
            · simp [hid]
        | _ => simp

theorem readResponse_of_not_stale (h : readResponse P id line ≠ none) :
    (∃ resp, Mine P id line resp ∧ readResponse P id line = some (verdict P resp)) ∨
      (∀ resp, ¬Mine P id line resp) ∧ ∃ message, readResponse P id line = some (.raised message) := by
  unfold readResponse at h ⊢
  unfold Mine
  by_cases hblank : strip line = []
  · rw [if_pos hblank] at h
    exact absurd rfl h
  · rw [if_neg hblank] at h ⊢
    cases hloads : P.loads line with
    | error e => cases e <;> exact Or.inr ⟨by simp, _, rfl⟩
    | ok v =>
        rw [hloads] at h
        cases v with
        | obj resp =>
            by_cases hid : equals P id (get resp "id") = true
            · exact Or.inl ⟨resp, ⟨hblank, rfl, hid⟩, by simp [hid]⟩
            · exact absurd (by simp [hid]) h
        | _ => exact Or.inr ⟨by simp, _, rfl⟩

theorem verdict_ends (resp : List (PyStr × Value φ)) (b : Bool) :
    (verdict P resp).ends = some b ↔
      b = true ∧ member resp "error" = none ∨
        b = false ∧ ∃ err, member resp "error" = some (.obj err) := by
  unfold verdict
  cases herror : member resp "error" with
  | none => simp [Outcome.ends, eq_comm]
  | some e => cases e <;> simp [Outcome.ends, eq_comm]

-- The lines of a stream can be read exactly if the first one that is not passed over is a response
-- with a result or an error of its own.
theorem reads_iff (lines : List Bytes) (b : Bool) :
    Reads P id lines b ↔ ((lines.findSome? (readResponse P id)).getD .timeout).ends = some b := by
  induction lines with
  | nil =>
      constructor
      · intro h
        cases h
        rfl
      · intro h
        obtain rfl := Option.some.inj h
        exact .finished
  | cons line lines ih =>
      rw [List.findSome?_cons]
      cases hread : readResponse P id line with
      | none =>
          have hstale := stale_iff.mpr hread
          rw [← ih]
          constructor
          · intro h
            cases h with
            | stale _ hrest => exact hrest
            | result hmine _ => exact absurd hstale hmine.not_stale
            | error hmine _ => exact absurd hstale hmine.not_stale
          · exact .stale hstale
      | some o =>
          have hne : readResponse P id line ≠ none := by
            rw [hread]
            exact Option.some_ne_none o
          have hfresh : ¬Stale P id line := fun h => hne (stale_iff.mp h)
          rw [Option.getD_some]
          obtain ⟨resp, hmine, hverdict⟩ | ⟨hnot, message, hraised⟩ := readResponse_of_not_stale hne
          · rw [hread] at hverdict
            rw [Option.some.inj hverdict, verdict_ends]
            constructor
            · intro h
              cases h with
              | stale hline _ => exact absurd hline hfresh
              | result hmine' hresult =>
                  rw [hmine.inj hmine']
                  exact Or.inl ⟨rfl, hresult⟩
              | error hmine' herror =>
                  rw [hmine.inj hmine']
                  exact Or.inr ⟨rfl, _, herror⟩
            · rintro (⟨rfl, hresult⟩ | ⟨rfl, err, herror⟩)
              · exact .result hmine hresult
              · exact .error hmine herror
          · rw [hread] at hraised
            rw [Option.some.inj hraised]
            constructor
            · intro h
              cases h with
              | stale hline _ => exact absurd hline hfresh
              | result hmine _ => exact absurd hmine (hnot _)
              | error hmine _ => exact absurd hmine (hnot _)
            · intro h
              cases h

end Reads

section Calls

variable {P : Python φ}

-- An `OSError` is caught like an error of the agent.
theorem attempt_ends (id : Nat) (t : Try) (b : Bool) :
    ((attempt P id t).elim (some false) Outcome.ends) = some b ↔ Reads P id t.lines b := by
  have hawait := @await_chunks _ P id t.chunks [] rfl
  rw [List.nil_append] at hawait
  have hlast : ((await P id [] (t.chunks.map .chunk)).1).ends = some b ↔ Reads P id t.lines b := by
    rw [reads_iff, hawait]
    unfold Try.lines
    cases (splitLines (t.chunks.takeWhile (· ≠ [])).flatten).1.findSome? (readResponse P id) with
    | some o => rfl
    | none =>
        rw [Option.getD_none, Option.getD_none]
        split <;> rfl
  rw [← hlast]
  unfold attempt
  cases (await P id [] (t.chunks.map .chunk)).1 <;> cases t.last <;> rfl

theorem attempt_raised (id : Nat) (t : Try) :
    (∀ message, attempt P id t ≠ some (.raised message)) ↔ ∃ b, Reads P id t.lines b := by
  simp only [← attempt_ends]
  cases hout : attempt P id t with
  | none => simp
  | some o => cases o <;> simp [Outcome.ends]

theorem attempt_returned (id : Nat) (t : Try) :
    (∃ v, attempt P id t = some (.returned v)) ↔ Reads P id t.lines true := by
  rw [← attempt_ends]
  cases hout : attempt P id t with
  | none => simp
  | some o => cases o <;> simp [Outcome.ends]

theorem waits_cons (stop : Bool) (id : Nat) (t : Try) (ts : List Try) :
    Waits P stop id (t :: ts) ↔ Reads P (id + 1) t.lines stop ∨
      Reads P (id + 1) t.lines (!stop) ∧ Waits P stop (id + 1) ts := by
  constructor
  · intro h
    cases h with
    | stops hread => exact Or.inl hread
    | goesOn hread hrest => exact Or.inr ⟨hread, hrest⟩
  · rintro (hread | ⟨hread, hrest⟩)
    · exact .stops hread
    · exact .goesOn hread hrest

theorem waitReady_iff (id : Nat) (ts : List Try) :
    (∃ b, waitReady P id ts = .ok b) ↔ Waits P true id ts := by
  induction ts generalizing id with
  | nil => exact iff_of_true ⟨false, rfl⟩ .finished
  | cons t ts ih =>
      rw [waits_cons, ← attempt_ends, ← attempt_ends, ← ih, waitReady]
      cases attempt P (id + 1) t with
      | none => simp
      | some o => cases o <;> simp [Outcome.ends]

theorem waitDown_iff (id : Nat) (ts : List Try) :
    (∃ b, waitDown P id ts = .ok b) ↔ Waits P false id ts := by
  induction ts generalizing id with
  | nil => exact iff_of_true ⟨false, rfl⟩ .finished
  | cons t ts ih =>
      rw [waits_cons, ← attempt_ends, ← attempt_ends, ← ih, waitDown]
      cases attempt P (id + 1) t with
      | none => simp
      | some o => cases o <;> simp [Outcome.ends]

end Calls

-- No other exception escapes exactly if the lines that are read are ones that the client can read.
theorem client_survives_iff (P : Python φ) :
    (∀ id t, (∀ message, attempt P id t ≠ some (.raised message)) ↔ ∃ b, Reads P id t.lines b) ∧
      (∀ id t, (∃ v, attempt P id t = some (.returned v)) ↔ Reads P id t.lines true) ∧
      (∀ id ts, (∃ b, waitReady P id ts = .ok b) ↔ Waits P true id ts) ∧
      ∀ id ts, (∃ b, waitDown P id ts = .ok b) ↔ Waits P false id ts :=
  ⟨attempt_raised, attempt_returned, waitReady_iff, waitDown_iff⟩

-- The exception of an outcome, so that it can be computed.
def exceptionOf : Option (Outcome φ) → Option String
  | some (.raised message) => some message
  | _ => none

theorem eq_raised {o : Option (Outcome φ)} {message : String}
    (h : exceptionOf o = some message) : o = some (.raised message) := by
  match o with
  | some (.raised m) =>
      obtain rfl := Option.some.inj h
      rfl
  | some (.returned _) => cases h
  | some (.agentError _ _) => cases h
  | some .timeout => cases h
  | some .disconnected => cases h
  | none => cases h

-- A line that raises ends the call.
theorem attempt_raises {P : Python φ} {id : Nat} {line : Bytes} {message : String} (hline : 10 ∉ line)
    (hread : readResponse P id line = some (.raised message)) (last : Last) :
    attempt P id ⟨[line ++ [10]], last⟩ = some (.raised message) := by
  have hne : line ++ [10] ≠ [] := List.append_ne_nil_of_right_ne_nil line (List.cons_ne_nil 10 [])
  have hlines : readLines P id ((line ++ [10]).length + 1) (line ++ [10]) =
      .inl (.raised message, []) := by
    rw [readLines, cutLine_append hline []]
    simp only [hread]
  unfold attempt
  rw [List.map_singleton, await, if_neg hne, List.nil_append, hlines]

namespace Sample

-- What a `ping` with id 1 gives that reads one line.
def pings (line : List Nat) : Option (Outcome Unit) :=
  attempt guest.toPython 1 ⟨[encode line ++ [10]], .timeout⟩

-- A response of an earlier client, with one digit more than Python reads, and one that is too deep.
def longStale : List Nat :=
  points "\x7b\"id\": 7, \"return\": " ++ (List.replicate 4301 49 ++ points "\x7d")

def deepStale : List Nat :=
  points "\x7b\"id\": 7, \"return\": " ++ List.replicate 1000 91 ++
    (List.replicate 1000 93 ++ points "\x7d")

end Sample

-- The tail of a response that an earlier client has not read to its end, a document that is no
-- object, an error that is none, and responses that Python does not read.
theorem ping_raises :
    Sample.pings (points "\": 1\x7d") = some (.raised "ValueError") ∧
      Sample.pings (points "[1]") = some (.raised "AttributeError") ∧
      Sample.pings (points "\x7b\"id\": 1, \"error\": 0\x7d") = some (.raised "AttributeError") ∧
      Sample.pings Sample.longStale = some (.raised "ValueError") ∧
      Sample.pings Sample.deepStale = some (.raised "RecursionError") ∧
      waitReady Sample.guest.toPython 0 [⟨[encode (points "\": 1\x7d\n")], .timeout⟩] =
        .error "ValueError" ∧
      waitDown Sample.guest.toPython 0 [⟨[encode (points "\": 1\x7d\n")], .timeout⟩] =
        .error "ValueError" := by
  refine ⟨attempt_raises ?_ (eq_raised ?_) _, attempt_raises ?_ (eq_raised ?_) _,
    attempt_raises ?_ (eq_raised ?_) _, attempt_raises ?_ (eq_raised ?_) _,
    attempt_raises ?_ (eq_raised ?_) _, rfl, rfl⟩
  all_goals decide +kernel

end VMForge.Guest
