import VMForge.Guest.Client
import VMForge.Base.JsonText.RoundTrip

namespace VMForge.Guest

open JsonText

section Frames

theorem byte_toNat {c : Nat} (hc : c < 127) : c.toUInt8.toNat = c := by
  have hmod : c.toUInt8.toNat = c % 256 := UInt8.toNat_ofNat'
  omega

theorem encode_append (cs cs' : List Nat) : encode (cs ++ cs') = encode cs ++ encode cs' :=
  List.map_append

theorem mem_encode {cs : List Nat} (hcs : Printable cs) {b : UInt8} (hb : b ∈ encode cs) :
    32 ≤ b.toNat ∧ b.toNat < 127 := by
  obtain ⟨c, hc, rfl⟩ := List.mem_map.mp hb
  obtain ⟨hlow, hhigh⟩ := hcs c hc
  rw [byte_toNat hhigh]
  exact ⟨hlow, hhigh⟩

theorem newline_notMem_encode {cs : List Nat} (hcs : Printable cs) : 10 ∉ encode cs := by
  intro h
  have hlow : 32 ≤ (10 : UInt8).toNat := (mem_encode hcs h).1
  revert hlow
  decide

theorem decode_encode {cs : List Nat} (hcs : Printable cs) : (encode cs).map UInt8.toNat = cs := by
  induction cs with
  | nil => rfl
  | cons c cs ih =>
      obtain ⟨hc, hrest⟩ := printable_cons.mp hcs
      have htail := ih hrest
      unfold encode at htail ⊢
      rw [List.map_cons, List.map_cons, htail, byte_toNat hc.2]

-- Python reads back what it has written, if it is within its limits.
theorem Python.loads_encode {φ : Type} (P : Python φ) {v : Value φ} (hv : Proper v)
    (hfits : fits P.limits.digits P.limits.readDepth v = true) :
    P.loads (encode (dumps P.floats v)) = .ok v := by
  have hprint := printable_dumps P.floats v
  have hascii : (encode (dumps P.floats v)).all (fun b => 0 < b && b < 128) = true := by
    rw [List.all_eq_true]
    intro b hb
    obtain ⟨hlow, hhigh⟩ := mem_encode hprint hb
    have hzero : (0 : UInt8) < b := by
      rw [UInt8.lt_iff_toNat_lt]
      exact Nat.lt_of_lt_of_le (by decide) hlow
    have hlimit : b < (128 : UInt8) := by
      rw [UInt8.lt_iff_toNat_lt]
      exact Nat.lt_trans hhigh (by decide)
    simp [hzero, hlimit]
  unfold Python.loads Python.decode
  simp only [hascii, if_true, decode_encode hprint]
  exact loads_dumps P.floats hv hfits

theorem Python.loads_unlimited {φ : Type} {P : Python φ} (hfree : P.limits = .none) {v : Value φ}
    (hv : Proper v) : P.loads (encode (dumps P.floats v)) = .ok v := by
  apply P.loads_encode hv
  rw [hfree]
  exact fits_none v

theorem Python.frame_eq {φ : Type} (P : Python φ) (v : Value φ) :
    P.frame v = encode (dumps P.floats v) ++ [10] := by
  unfold Python.frame
  rw [encode_append]
  rfl

-- No blanks surround the text of an object.
theorem strip_object {φ : Type} (F : Floats φ) (fields : List (PyStr × Value φ)) :
    strip (encode (dumps F (.obj fields))) = encode (dumps F (.obj fields)) := by
  have htext : encode (dumps F (.obj fields)) =
      123 :: (encode (dumpsFields F fields) ++ [125]) := by
    rw [dumps, encode_append, encode_append]
    rfl
  rw [htext, strip, List.dropWhile_cons_of_neg (by decide), List.reverse_cons, List.reverse_append,
    List.reverse_singleton, List.singleton_append, List.cons_append,
    List.dropWhile_cons_of_neg (by decide)]
  simp

theorem object_ne_nil {φ : Type} (F : Floats φ) (fields : List (PyStr × Value φ)) :
    encode (dumps F (.obj fields)) ≠ [] := by
  rw [dumps, encode_append]
  exact List.cons_ne_nil _ _

end Frames

-- One way to cut a stream into reads.
structure Cut where
  pieces : Bytes → List Bytes
  whole : ∀ stream, (pieces stream).flatten = stream
  full : ∀ stream, [] ∉ pieces stream

-- One `execute`, and how its request and its response are cut.
structure Call (φ : Type) where
  command : String
  arguments : Doc φ
  up : Cut
  down : Cut

-- A client, and the agent at the other end of the channel.
structure Session (γ : Type) where
  id : Nat
  agent : Agent γ

variable {φ γ : Type} (G : Guest φ γ)

section Calls

-- One call: the agent reads the request, and the client what the agent then writes.
def execute (s : Session γ) (c : Call φ) : (Outcome φ × List Recv) × Session γ :=
  let id := s.id + 1
  let req := G.frame (request G.toPython c.command c.arguments.val id)
  let agent := serve G (fun _ => .whole) s.agent (c.up.pieces req)
  let arrived := (agent.channel.drop s.agent.channel.length).flatten
  (await G.toPython id [] ((c.down.pieces arrived).map .chunk), ⟨id, agent⟩)

def executes : List (Call φ) → Session γ → List (Outcome φ) × Session γ
  | [], s => ([], s)
  | c :: cs, s =>
      let (r, s') := execute G s c
      let (os, s'') := executes cs s'
      (r.1 :: os, s'')

-- What `handle` yields for a command and its arguments.
def result (command : String) (arguments : Doc φ) (g : γ) : Except Raised (Doc φ) × γ :=
  handle G [("execute", .str command), ("arguments", arguments.val)] g

def Raised.code : Raised → String
  | .agentError code _ => code
  | .valueError _ => "invalid_request"
  | .other _ => "internal_error"

def Raised.message : Raised → Message
  | .agentError _ message => message
  | .valueError message => message
  | .other message => message

-- What a caller gets of a result: the value, or an error with the code of the agent.
def delivered : Except Raised (Doc φ) → Outcome φ
  | .ok v => .returned v.val
  | .error e =>
      .agentError (.str (if e.message.val = PyStr.ofString "" then "unknown error" else e.message.val))
        (.str e.code)

-- The calls without a channel in between.
def direct : List (Call φ) → γ → List (Outcome φ) × γ
  | [], g => ([], g)
  | c :: cs, g =>
      let (r, g') := result G c.command c.arguments g
      let (os, g'') := direct cs g'
      (delivered r :: os, g'')

end Calls

section Messages

theorem proper_pair {k k' : String} {v v' : Value φ} (hk : k ≠ k') (hv : Proper v)
    (hv' : Proper v') : Proper (.obj [((k : PyStr), v), ((k' : PyStr), v')]) := by
  refine .obj _ ?_ ?_ ?_
  · simp [PyStr.ofString_inj, hk]
  · simp [PyStr.joined_ofString]
  · intro f hf
    simp only [List.mem_cons, List.not_mem_nil, or_false] at hf
    obtain rfl | rfl := hf
    · exact hv
    · exact hv'

theorem proper_request (P : Python φ) (command : String) {arguments : Value φ}
    (hargs : Proper arguments) (id : Nat) : Proper (request P command arguments id) := by
  unfold request
  have hcommand : Proper (φ := φ) (.str command) := .str _ (PyStr.joined_ofString command)
  split
  · refine .obj _ (by simp [PyStr.ofString_inj]) (by simp [PyStr.joined_ofString]) ?_
    intro f hf
    simp only [List.mem_cons, List.not_mem_nil, or_false] at hf
    obtain rfl | rfl | rfl := hf
    · exact hcommand
    · exact .int _
    · exact hargs
  · exact proper_pair (by decide) hcommand (.int _)

theorem proper_errorBody (code : String) (message : Message) :
    Proper (errorBody (φ := φ) code message) := by
  refine .obj _ (by simp [PyStr.ofString_inj]) (by simp [PyStr.joined_ofString]) ?_
  intro f hf
  simp only [List.mem_cons, List.not_mem_nil, or_false] at hf
  obtain rfl | rfl | rfl := hf
  · exact .str _ (PyStr.joined_ofString code)
  · exact .str _ message.property
  · exact .str _ message.property

theorem Raised.body_eq (e : Raised) : e.body = errorBody (φ := φ) e.code e.message := by
  cases e <;> rfl

-- The agent sees the command and the arguments, and the id of the client.
theorem processLine_request {G : Guest φ γ} (hfree : G.limits = .none) (command : String)
    (arguments : Doc φ) (id : Nat) (g : γ) :
    processLine G (encode (dumps G.floats (request G.toPython command arguments.val id))) g =
      (respond (.int id) (result G command arguments g).1, (result G command arguments g).2) := by
  have hloads := Python.loads_unlimited (P := G.toPython) hfree
    (proper_request G.toPython command arguments.property id)
  unfold processLine
  rw [hloads]
  unfold request result
  by_cases hargs : G.truthy arguments.val
  · simp [handle, get, hargs]
  · have hnull : G.truthy .null = false := rfl
    simp [handle, get, hargs, hnull]

-- The client takes the response with its own id for what it is.
theorem readResponse_respond {P : Python φ} (hfree : P.limits = .none) (id : Nat)
    (r : Except Raised (Doc φ)) :
    readResponse P id (encode (dumps P.floats (respond (.int id) r))) = some (delivered r) := by
  unfold readResponse
  cases r with
  | ok v =>
      have hproper : Proper (.obj [("return", v.val), ("id", .int id)]) :=
        proper_pair (by decide) v.property (.int _)
      have hrespond : respond (.int id) (.ok v) = .obj [("return", v.val), ("id", .int id)] := rfl
      rw [hrespond, strip_object, if_neg (object_ne_nil _ _), Python.loads_unlimited hfree hproper]
      simp [get, equals, verdict, delivered]
  | error e =>
      have hproper : Proper (φ := φ) (.obj [("error", e.body), ("id", .int id)]) := by
        rw [Raised.body_eq]
        exact proper_pair (by decide) (proper_errorBody _ _) (.int _)
      have hrespond : respond (φ := φ) (.int id) (.error e) =
          .obj [("error", e.body), ("id", .int id)] := rfl
      rw [hrespond, strip_object, if_neg (object_ne_nil _ _), Python.loads_unlimited hfree hproper,
        Raised.body_eq]
      by_cases hmessage : e.message.val = PyStr.ofString ""
      · simp [get, equals, verdict, delivered, either, Python.truthy, errorBody, hmessage]
      · simp [get, equals, verdict, delivered, either, Python.truthy, errorBody, hmessage]

end Messages

section Rounds

variable {P : Python φ} {id : Nat}

theorem readLines_rest {fuel : Nat} {buf : Bytes} (h : 10 ∉ buf) :
    readLines P id fuel buf = .inr buf := by
  cases fuel with
  | zero => rfl
  | succ fuel => rw [readLines, cutLine_eq_none.mpr h]

-- However one line is cut, it is read whole, and nothing after it is waited for.
theorem await_line {line : Bytes} {o : Outcome φ} (hline : 10 ∉ line)
    (ho : readResponse P id line = some o) {pieces : List Bytes} (hfull : [] ∉ pieces)
    {buf : Bytes} (hstream : buf ++ pieces.flatten = line ++ [10]) (hbuf : 10 ∉ buf) :
    await P id buf (pieces.map .chunk) = (o, []) := by
  induction pieces generalizing buf with
  | nil =>
      rw [List.flatten_nil, List.append_nil] at hstream
      rw [hstream] at hbuf
      simp at hbuf
  | cons piece pieces ih =>
      simp only [List.mem_cons, not_or] at hfull
      rw [List.flatten_cons, ← List.append_assoc] at hstream
      rw [List.map_cons, await, if_neg (Ne.symm hfull.1)]
      cases pieces with
      | nil =>
          rw [List.flatten_nil, List.append_nil] at hstream
          rw [hstream, readLines, cutLine_append hline []]
          simp only [ho, List.map_nil]
      | cons next pieces =>
          have hlast : 10 ∉ buf ++ piece := by
            have hne : (next :: pieces).flatten ≠ [] := by
              simp only [List.mem_cons, not_or] at hfull
              simp [Ne.symm hfull.2.1]
            obtain ⟨rest, b, hrest⟩ := List.eq_nil_or_concat _ |>.resolve_left hne
            rw [hrest, List.concat_eq_append, ← List.append_assoc] at hstream
            have hprefix := (List.append_inj' hstream rfl).1
            rw [← hprefix] at hline
            exact fun h => hline (List.mem_append_left _ h)
          rw [readLines_rest hlast]
          exact ih hfull.2 hstream hlast

-- One call is one turn of `handle`, and it leaves nothing on the channel.
theorem execute_eq {G : Guest φ γ} (hfree : G.limits = .none) {s : Session γ}
    (hbuf : s.agent.buf = []) (hup : s.agent.ended = false) (c : Call φ) :
    ∃ resp, execute G s c = ((delivered (result G c.command c.arguments s.agent.guest).1, []),
      ⟨s.id + 1, ⟨[], (result G c.command c.arguments s.agent.guest).2, s.agent.writes + 1,
        s.agent.channel ++ [G.frame resp], s.agent.ended⟩⟩) := by
  have hrequest : ∃ fields,
      request G.toPython c.command c.arguments.val (s.id + 1) = .obj fields := ⟨_, rfl⟩
  obtain ⟨fields, hfields⟩ := hrequest
  have hline := newline_notMem_encode (printable_dumps G.floats (.obj fields))
  have hlines : splitLines (encode (dumps G.floats (.obj fields)) ++ [10]) =
      ([encode (dumps G.floats (.obj fields))], []) := by
    rw [splitLines_some (cutLine_append hline [])]
    rfl
  have hrequests : requestLines (encode (dumps G.floats (.obj fields)) ++ [10]) =
      [encode (dumps G.floats (.obj fields))] := by
    rw [requestLines, hlines]
    simp [strip_object, object_ne_nil]
  have hprocess := processLine_request hfree c.command c.arguments (s.id + 1) s.agent.guest
  rw [hfields] at hprocess
  generalize result G c.command c.arguments s.agent.guest = res at hprocess ⊢
  have hserve : serve G (fun _ => .whole) s.agent (c.up.pieces (G.frame (.obj fields))) =
      ⟨[], res.2, s.agent.writes + 1,
        s.agent.channel ++ [G.frame (respond (.int (s.id + 1)) res.1)], s.agent.ended⟩ := by
    have hwhole : ∀ _ : Nat, Accept.whole ≠ .fails := fun _ h => by cases h
    rw [serve_eq (fun _ => .whole) hfree hwhole _ (by rw [hbuf]; rfl) hup, hbuf, List.nil_append,
      c.up.whole, G.frame_eq, hrequests, hlines]
    unfold Agent.answered
    rw [answers_cons, hprocess]
    rfl
  refine ⟨respond (.int (s.id + 1)) res.1, ?_⟩
  unfold execute
  simp only [hfields, hserve, List.drop_left, List.flatten_singleton]
  rw [await_line (newline_notMem_encode (printable_dumps G.floats _))
    (readResponse_respond hfree (s.id + 1) res.1) (c.down.full _) _
    List.not_mem_nil]
  rw [List.nil_append, c.down.whole, G.frame_eq]
  rfl

theorem executes_spec {G : Guest φ γ} (hfree : G.limits = .none) (cs : List (Call φ))
    {s : Session γ} (hbuf : s.agent.buf = []) (hup : s.agent.ended = false) :
    (executes G cs s).1 = (direct G cs s.agent.guest).1 ∧
      (executes G cs s).2.agent.guest = (direct G cs s.agent.guest).2 ∧
      (executes G cs s).2.agent.writes = s.agent.writes + cs.length ∧
      (executes G cs s).2.agent.buf = [] := by
  induction cs generalizing s with
  | nil => exact ⟨rfl, rfl, rfl, hbuf⟩
  | cons c cs ih =>
      obtain ⟨resp, hc⟩ := execute_eq hfree hbuf hup c
      obtain ⟨houtcomes, hguest, hwrites, hrest⟩ :=
        ih (s := (execute G s c).2) (by rw [hc]) (by rw [hc]; exact hup)
      have hagent : (execute G s c).2.agent.guest =
          (result G c.command c.arguments s.agent.guest).2 ∧
          (execute G s c).2.agent.writes = s.agent.writes + 1 := by
        rw [hc]
        exact ⟨rfl, rfl⟩
      rw [hagent.1] at houtcomes hguest
      rw [hagent.2] at hwrites
      refine ⟨?_, hguest, ?_, hrest⟩
      · show (execute G s c).1.1 :: (executes G cs (execute G s c).2).1 = _
        rw [houtcomes, hc]
        rfl
      · show (executes G cs (execute G s c).2).2.agent.writes = _
        rw [hwrites, List.length_cons]
        omega

-- Calls over the channel are the calls of `handle`, each run once and in order, however the two
-- streams are cut into reads, where Python has no limits.
theorem executes_direct (G : Guest φ γ) (cs : List (Call φ)) (g : γ) :
    (executes G.unlimited cs ⟨0, .opened g⟩).1 = (direct G.unlimited cs g).1 ∧
      (executes G.unlimited cs ⟨0, .opened g⟩).2.agent.guest = (direct G.unlimited cs g).2 ∧
      (executes G.unlimited cs ⟨0, .opened g⟩).2.agent.writes = cs.length := by
  obtain ⟨houtcomes, hguest, hwrites, -⟩ :=
    executes_spec (G := G.unlimited) rfl cs (s := ⟨0, .opened g⟩) rfl rfl
  exact ⟨houtcomes, hguest, hwrites.trans (Nat.zero_add _)⟩

end Rounds

end VMForge.Guest
