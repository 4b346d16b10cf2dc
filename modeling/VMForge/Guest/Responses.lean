import VMForge.Guest.Channel

namespace VMForge.Guest

open JsonText

variable {φ γ : Type}

-- A response has exactly one of a result and an error, and no id but the one of its request.
structure Response (rid : Value φ) (members : List (PyStr × Value φ)) : Prop where
  one : (member members "return").isSome ↔ ¬(member members "error").isSome
  id : ∀ v, member members "id" = some v ↔ v = rid ∧ v ≠ .null

-- The id that the response to a line has, `None` if it has none.
def requestId (P : Python φ) (line : Bytes) : Value φ :=
  match P.loads line with
  | .ok (.obj req) => get req "id"
  | _ => .null

section Responses

theorem respond_members (rid : Value φ) (r : Except Raised (Doc φ)) :
    ∃ (k : String) (body : Value φ), (k = "return" ∨ k = "error") ∧
      (rid = .null ∧ respond rid r = .obj [(k, body)] ∨
        rid ≠ .null ∧ respond rid r = .obj [(k, body), ("id", rid)]) := by
  cases r with
  | ok v =>
      refine ⟨"return", v.val, Or.inl rfl, ?_⟩
      cases rid with
      | null => exact Or.inl ⟨rfl, rfl⟩
      | _ => exact Or.inr ⟨by simp, rfl⟩
  | error e =>
      refine ⟨"error", e.body, Or.inr rfl, ?_⟩
      cases rid with
      | null => exact Or.inl ⟨rfl, rfl⟩
      | _ => exact Or.inr ⟨by simp, rfl⟩

theorem respond_response (rid : Value φ) (r : Except Raised (Doc φ)) :
    ∃ members, respond rid r = .obj members ∧ Response rid members := by
  obtain ⟨k, body, hk, hresp⟩ := respond_members rid r
  have hid : "id" ≠ k := by
    obtain rfl | rfl := hk
    all_goals decide
  have hone : ∀ back : List (PyStr × Value φ), member back "return" = none →
      member back "error" = none → ((member (((k : PyStr), body) :: back) "return").isSome ↔
        ¬(member (((k : PyStr), body) :: back) "error").isSome) := by
    intro back hreturn herror
    rw [member_cons, member_cons, hreturn, herror]
    obtain rfl | rfl := hk
    all_goals simp
  obtain ⟨rfl, hresp⟩ | ⟨hne, hresp⟩ := hresp
  · refine ⟨_, hresp, hone [] rfl rfl, fun v => ?_⟩
    rw [member_cons, if_neg hid]
    simp
  · refine ⟨_, hresp, hone [("id", rid)] (by simp) (by simp), fun v => ?_⟩
    rw [member_cons, if_neg hid, member_cons, if_pos rfl, Option.some.injEq]
    constructor
    · rintro rfl
      exact ⟨rfl, hne⟩
    · rintro ⟨rfl, -⟩
      rfl

-- On every way through `process_line` the id is the one of the request.
theorem processLine_respond (G : Guest φ γ) (line : Bytes) (g : γ) :
    ∃ r, (processLine G line g).1 = respond (requestId G.toPython line) r := by
  unfold processLine requestId
  cases G.loads line with
  | error e =>
      cases e with
      | value => exact ⟨.error (.valueError (G.why line)), rfl⟩
      | recursion => exact ⟨.error (.other (G.why line)), rfl⟩
  | ok req =>
      cases req with
      | obj req => exact ⟨(handle G req g).1, rfl⟩
      | _ => exact ⟨.error (.agentError "invalid_request" "request must be a JSON object"), rfl⟩

theorem requestLines_unlines {lines : List Bytes} (hlines : ∀ line ∈ lines, 10 ∉ line) :
    requestLines (unlines lines) = (lines.map strip).filter (· ≠ []) := by
  obtain ⟨later, hsplit, hrest⟩ :=
    @splitLines_unlines (unlines lines) [] lines (List.append_nil _) hlines
  obtain ⟨-, -, hnewline⟩ := splitLines_spec (unlines lines)
  rw [List.append_nil] at hrest
  cases later with
  | nil =>
      unfold requestLines
      rw [List.append_nil] at hsplit
      rw [← hsplit]
  | cons line later =>
      rw [hrest, unlines_cons] at hnewline
      exact absurd (List.mem_append_right line List.mem_cons_self) hnewline

theorem answers_getElem (G : Guest φ γ) (lines : List Bytes) (g : γ) (i : Nat) :
    (answers G lines g).1[i]? =
      lines[i]?.map fun line => (processLine G line (answers G (lines.take i) g).2).1 := by
  induction lines generalizing g i with
  | nil => rfl
  | cons line lines ih =>
      cases i with
      | zero => rfl
      | succ i =>
          rw [answers_cons, List.getElem?_cons_succ, List.getElem?_cons_succ, List.take_succ_cons,
            answers_cons]
          exact ih _ i

-- An element behind none that is refused is among the first ones that are not.
theorem getElem?_takeWhile {α : Type} {p : α → Bool} {xs : List α} {i : Nat} {x : α}
    (hx : xs[i]? = some x) (h : ∀ j ≤ i, ∀ y, xs[j]? = some y → p y = true) :
    (xs.takeWhile p)[i]? = some x := by
  induction xs generalizing i with
  | nil => cases hx
  | cons y xs ih =>
      rw [List.takeWhile_cons_of_pos (h 0 (Nat.zero_le i) y rfl)]
      cases i with
      | zero => exact hx
      | succ i => exact ih hx fun j hj z hz => h (j + 1) (Nat.succ_le_succ hj) z hz

end Responses

-- Every line that is not blank gets one response, in its turn, however the stream is cut, as long as
-- `json.dumps` refuses none.
theorem lines_answered (G : Guest φ γ) (g : γ) (lines : List Bytes) (chunks : List Bytes)
    (hlines : ∀ line ∈ lines, 10 ∉ line) (hchunks : chunks.flatten = unlines lines) :
    let asked := (lines.map strip).filter (· ≠ [])
    let resps := (answers G asked g).1
    let channel := (serve G (fun _ => .whole) (.opened g) chunks).channel
    ((∀ resp ∈ resps, G.writes resp = true) → channel.length = asked.length) ∧
      ∀ i line, asked[i]? = some line →
        (∀ j ≤ i, ∀ resp, resps[j]? = some resp → G.writes resp = true) → ∃ members,
          (processLine G line (answers G (asked.take i) g).2).1 = .obj members ∧
            channel[i]? = some (encode (dumps G.floats (.obj members)) ++ [10]) ∧
            10 ∉ encode (dumps G.floats (.obj members)) ∧
            Response (requestId G.toPython line) members := by
  intro asked resps channel
  have hchannel : channel = (resps.takeWhile G.writes).map G.frame := by
    have hserve := (serve_handles G (fun _ => .whole) (fun _ h => by cases h) chunks
      (a := Agent.opened g) rfl rfl).channel
    have hasked : requestLines ([] ++ chunks.flatten) = asked := by
      rw [List.nil_append, hchunks]
      exact requestLines_unlines hlines
    have hwritten := written_whole G (resps.takeWhile G.writes) 0
    unfold channel
    rw [hserve, ← hwritten]
    unfold resps
    rw [← hasked]
    rfl
  refine ⟨fun hall => ?_, fun i line hline hwrites => ?_⟩
  · rw [hchannel, List.length_map, List.takeWhile_eq_self_iff.mpr hall]
    exact answers_length G asked g
  · obtain ⟨r, hresp⟩ := processLine_respond G line (answers G (asked.take i) g).2
    obtain ⟨members, hmembers, hresponse⟩ := respond_response (requestId G.toPython line) r
    have hi : resps[i]? = some (.obj members) := by
      have hget := answers_getElem G asked g i
      rw [hline, Option.map_some, hresp, hmembers] at hget
      exact hget
    refine ⟨members, hresp.trans hmembers, ?_, ?_, hresponse⟩
    · rw [hchannel, List.getElem?_map, getElem?_takeWhile hi hwrites, Option.map_some,
        Python.frame_eq]
    · exact newline_notMem_encode (printable_dumps G.floats _)

-- A blank line, a `ping` in two pieces, and one with an id.
theorem lines_answered_ping :
    (serve Sample.guest (fun _ => .whole) (.opened ())
      [[32, 10], encode (points "\x7b\"execute\": \"pi"), encode (points "ng\"\x7d\n\x7b\"execute\": "),
        encode (points "\"ping\", \"id\": [7]\x7d"), [10]]).channel.length = 2 := by
  have hanswered := lines_answered Sample.guest ()
    [[32], encode (points "\x7b\"execute\": \"ping\"\x7d"),
      encode (points "\x7b\"execute\": \"ping\", \"id\": [7]\x7d")]
    [[32, 10], encode (points "\x7b\"execute\": \"pi"), encode (points "ng\"\x7d\n\x7b\"execute\": "),
      encode (points "\"ping\", \"id\": [7]\x7d"), [10]] (by decide) (by decide)
  exact (hanswered.1 (by decide +kernel)).trans (by decide)

namespace Sample

-- A list in a list, and so on.
def nest : Nat → Value Unit
  | 0 => .arr []
  | n + 1 => .arr [nest n]

theorem proper_nest (n : Nat) : Proper (nest n) := by
  induction n with
  | zero => exact .arr [] fun v hv => (List.not_mem_nil hv).elim
  | succ n ih =>
      refine .arr [nest n] fun v hv => ?_
      rw [List.mem_singleton.mp hv]
      exact ih

-- A guest whose `ping` returns lists in lists.
def nested : Guest Unit Unit :=
  { guest with commands := fun _ => some fun _ g => (.ok ⟨nest 1000, proper_nest 1000⟩, g) }

-- A request whose id has one digit more than Python reads.
def longId : Bytes :=
  encode (points "\x7b\"execute\": \"ping\", \"id\": " ++ List.replicate 4301 49 ++ points "\x7d")

-- Whether a document is an object with an id.
def hasId : Option (Value Unit) → Bool
  | some (.obj members) =>
      match get members "id" with
      | .null => false
      | _ => true
  | _ => false

theorem exists_of_hasId {v : Option (Value Unit)} (h : hasId v = true) :
    ∃ members, v = some (.obj members) ∧ get members "id" ≠ .null := by
  match v with
  | some (.obj members) =>
      refine ⟨members, rfl, fun hnull => ?_⟩
      rw [hasId, hnull] at h
      cases h
  | none => cases h
  | some .null => cases h
  | some (.bool _) => cases h
  | some (.int _) => cases h
  | some (.float _) => cases h
  | some (.str _) => cases h
  | some (.arr _) => cases h

end Sample

-- The response to an object with an id that is too long has no id, and a value that is too deep gets
-- no response.
theorem lines_unanswered :
    (¬∀ line req, Sample.guest.document line = some (.obj req) → ∀ members,
      (processLine Sample.guest line ()).1 = .obj members → Response (get req "id") members) ∧
      ¬∀ lines chunks : List Bytes, (∀ line ∈ lines, 10 ∉ line) → chunks.flatten = unlines lines →
        (serve Sample.nested (fun _ => .whole) (.opened ()) chunks).channel.length =
          ((lines.map strip).filter (· ≠ [])).length := by
  constructor
  · intro h
    have hdocument : Sample.hasId (Sample.guest.document Sample.longId) = true := by
      decide +kernel
    have hresponse : Sample.hasId (some (processLine Sample.guest Sample.longId ()).1) = false := by
      decide +kernel
    obtain ⟨req, hreq, hid⟩ := Sample.exists_of_hasId hdocument
    obtain ⟨r, hr⟩ := processLine_respond Sample.guest Sample.longId ()
    obtain ⟨members, hmembers, -⟩ := respond_response (requestId Sample.guest.toPython Sample.longId) r
    have hline := hr.trans hmembers
    have hmember := ((h Sample.longId req hreq members hline).id _).mpr ⟨rfl, hid⟩
    have hget : get members "id" = get req "id" := by rw [get, hmember]; rfl
    rw [hline, Sample.hasId, hget] at hresponse
    split at hresponse
    · rename_i hnull
      exact hid hnull
    · cases hresponse
  · intro h
    have hping := h [encode (points "\x7b\"execute\": \"ping\"\x7d")]
      [encode (points "\x7b\"execute\": \"ping\"\x7d\n")] (by decide) (by decide)
    revert hping
    decide +kernel

end VMForge.Guest
