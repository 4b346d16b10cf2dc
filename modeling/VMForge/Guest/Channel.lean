import VMForge.Guest.Remote
import VMForge.Base.Run

namespace VMForge.Guest

open JsonText

section Unlines

-- Lines, each with its newline.
def unlines (lines : List Bytes) : Bytes := (lines.map (· ++ [10])).flatten

theorem unlines_nil : unlines [] = [] := rfl

theorem unlines_cons (line : Bytes) (lines : List Bytes) :
    unlines (line :: lines) = line ++ 10 :: unlines lines := by
  simp [unlines]

theorem unlines_append (lines lines' : List Bytes) :
    unlines (lines ++ lines') = unlines lines ++ unlines lines' := by
  simp [unlines]

variable {s t rest line : Bytes} {lines : List Bytes}

theorem cutLine_unlines (h : s ++ t = unlines lines) (hlines : ∀ l ∈ lines, 10 ∉ l)
    (hcut : cutLine s = some (line, rest)) :
    ∃ later, lines = line :: later ∧ rest ++ t = unlines later := by
  obtain ⟨hs, hline⟩ := cutLine_eq hcut
  rw [hs, List.append_assoc, List.cons_append] at h
  cases lines with
  | nil => simp [unlines] at h
  | cons l later =>
      rw [unlines_cons] at h
      have hfirst := cutLine_append hline (rest ++ t)
      rw [h, cutLine_append (hlines l List.mem_cons_self)] at hfirst
      simp only [Option.some.injEq, Prod.mk.injEq] at hfirst
      exact ⟨later, by rw [hfirst.1], hfirst.2.symm⟩

-- What has come of some lines is their first ones, and a part of the next.
theorem splitLines_unlines (h : s ++ t = unlines lines) (hlines : ∀ l ∈ lines, 10 ∉ l) :
    ∃ later, lines = (splitLines s).1 ++ later ∧ (splitLines s).2 ++ t = unlines later := by
  induction lines generalizing s with
  | nil =>
      have hs : s = [] := (List.append_eq_nil_iff.mp h).1
      subst hs
      exact ⟨[], rfl, h⟩
  | cons l lines ih =>
      cases hcut : cutLine s with
      | none =>
          rw [splitLines_none hcut]
          exact ⟨l :: lines, rfl, h⟩
      | some p =>
          obtain ⟨first, rest⟩ := p
          obtain ⟨later, hcons, hrest⟩ := cutLine_unlines h hlines hcut
          obtain ⟨hfirst, rfl⟩ := List.cons.inj hcons
          obtain ⟨later, hlater, hsplit⟩ :=
            ih hrest fun l hl => hlines l (List.mem_cons_of_mem _ hl)
          rw [splitLines_some hcut]
          refine ⟨later, ?_, hsplit⟩
          show l :: lines = first :: ((splitLines rest).1 ++ later)
          rw [← hlater, hfirst]

-- A stream is its complete lines, and a rest without a newline.
theorem splitLines_spec (s : Bytes) : unlines (splitLines s).1 ++ (splitLines s).2 = s ∧
    (∀ l ∈ (splitLines s).1, 10 ∉ l) ∧ 10 ∉ (splitLines s).2 := by
  induction hn : s.length using Nat.strongRecOn generalizing s with
  | ind n ih =>
      cases hcut : cutLine s with
      | none =>
          rw [splitLines_none hcut]
          exact ⟨rfl, fun _ hl => (List.not_mem_nil hl).elim, cutLine_eq_none.mp hcut⟩
      | some p =>
          obtain ⟨line, rest⟩ := p
          obtain ⟨hs, hline⟩ := cutLine_eq hcut
          have hshort : rest.length < n := by
            rw [← hn, hs, List.length_append, List.length_cons]
            omega
          obtain ⟨hwhole, hlines, hrest⟩ := ih rest.length hshort rest rfl
          rw [splitLines_some hcut]
          refine ⟨?_, ?_, hrest⟩
          · show unlines (line :: (splitLines rest).1) ++ (splitLines rest).2 = s
            rw [unlines_cons, List.append_assoc, List.cons_append, hwhole, hs]
          · intro l hl
            obtain rfl | hl := List.mem_cons.mp hl
            · exact hline
            · exact hlines l hl

-- What is left of complete lines is complete lines.
theorem unlines_suffix (h : s ++ t = unlines lines) : unlines (splitLines t).1 = t := by
  obtain ⟨hwhole, -, hrest⟩ := splitLines_spec t
  obtain hnil | ⟨front, b, hb⟩ := List.eq_nil_or_concat (splitLines t).2
  · rw [hnil, List.append_nil] at hwhole
    exact hwhole
  · rw [List.concat_eq_append] at hb
    rw [hb] at hwhole hrest
    obtain rfl | ⟨ls, l, rfl⟩ := List.eq_nil_or_concat lines
    · rw [← hwhole] at h
      simp [unlines] at h
    · rw [List.concat_eq_append, unlines_append, unlines_cons, unlines_nil, ← hwhole,
        ← List.append_assoc, ← List.append_assoc, ← List.append_assoc] at h
      have hlast := (List.append_inj' h rfl).2
      simp only [List.cons.injEq, and_true] at hlast
      exact absurd (List.mem_append_right front (by rw [hlast]; exact List.mem_singleton_self _)) hrest

end Unlines

-- A request that a client has sent.
structure Request (φ : Type) where
  command : String
  arguments : Doc φ
  id : Nat

-- The channel between the clients and the agent: the last id of every client, the requests sent so
-- far, the bytes the agent has not read yet, and how many of its bytes the host has received.
structure Channel (φ γ : Type) where
  ids : Nat → Nat
  sent : List (Request φ)
  up : Bytes
  agent : Agent γ
  received : Nat

-- What happens while a client waits. A call that is given up leaves the channel as one that times
-- out.
inductive Move where
  | agentReads (n : Nat)
  | recv (n : Nat)
  | timeout
  | closed

-- What happens on the channel: a call of some client, or the agent reads between two calls.
inductive Turn (φ : Type) where
  | execute (client : Nat) (command : String) (arguments : Doc φ) (moves : List Move)
  | agentReads (n : Nat)

variable {φ γ : Type} (G : Guest φ γ)

def Request.text (P : Python φ) (r : Request φ) : Bytes :=
  encode (dumps P.floats (request P r.command r.arguments.val r.id))

-- Whether a call ends with the content of a response.
def Outcome.isResponse : Outcome φ → Bool
  | .returned _ => true
  | .agentError _ _ => true
  | _ => false

-- A line that a client waiting for `id` takes for its response.
def Bears (P : Python φ) (id : Nat) (line : Bytes) : Prop :=
  ∃ resp, P.loads line = .ok (.obj resp) ∧ equals P id (get resp "id") = true

namespace Channel

def opened (g : γ) : Channel φ γ := ⟨fun _ => 0, [], [], .opened g, 0⟩

-- What the agent has written and nobody has received.
def waiting (w : Channel φ γ) : Bytes := w.agent.channel.flatten.drop w.received

def agentReads (n : Nat) (w : Channel φ γ) : Channel φ γ :=
  { w with up := w.up.drop n, agent := receive G (fun _ => .whole) w.agent (w.up.take n) }

-- The loop of `execute`: what becomes of the call, and how many bytes of the agent it has used up.
def listen (id : Nat) : Bytes → List Move → Channel φ γ → (Outcome φ × Nat) × Channel φ γ
  | buf, [], w => ((.timeout, w.received - buf.length), w)
  | buf, .timeout :: _, w => ((.timeout, w.received - buf.length), w)
  | buf, .closed :: _, w => ((.disconnected, w.received - buf.length), w)
  | buf, .agentReads n :: moves, w => listen id buf moves (w.agentReads G n)
  | buf, .recv n :: moves, w =>
      let chunk := w.waiting.take n
      -- with nothing there `recv` goes on waiting
      if chunk = [] then listen id buf moves w
      else
        let w := { w with received := w.received + chunk.length }
        match readLines G.toPython id ((buf ++ chunk).length + 1) (buf ++ chunk) with
        | .inl (o, rest) => ((o, w.received - rest.length), w)
        | .inr buf => listen id buf moves w

def send (client : Nat) (r : Request φ) (w : Channel φ γ) : Channel φ γ :=
  { w with
    ids := fun c => if c = client then r.id else w.ids c
    sent := w.sent ++ [r]
    up := w.up ++ (r.text G.toPython ++ [10]) }

def execute (client : Nat) (command : String) (arguments : Doc φ) (moves : List Move)
    (w : Channel φ γ) : (Outcome φ × Nat) × Channel φ γ :=
  let id := w.ids client + 1
  listen G id [] moves (w.send G client ⟨command, arguments, id⟩)

def turn (w : Channel φ γ) : Turn φ → Channel φ γ
  | .execute client command arguments moves => (w.execute G client command arguments moves).2
  | .agentReads n => w.agentReads G n

-- Nothing of an earlier call will come with the id of the next one.
def Clear (w : Channel φ γ) : Turn φ → Prop
  | .execute client _ _ _ =>
      (∀ line ∈ (splitLines w.waiting).1, ¬Bears G.toPython (w.ids client + 1) line) ∧
        ∀ r ∈ w.sent.drop w.agent.channel.length, r.id ≠ w.ids client + 1
  | .agentReads _ => True

-- What a call takes from a response is from the response to its own request: the one with the
-- request's place among the responses, and the call has used up the channel to the end of it.
def Own (w : Channel φ γ) : Turn φ → Prop
  | .execute client command arguments moves =>
      let call := w.execute G client command arguments moves
      call.1.1.isResponse = true →
        ∃ line, call.2.agent.channel[w.sent.length]? = some (line ++ [10]) ∧
          readResponse G.toPython (w.ids client + 1) line = some call.1.1 ∧
          call.1.2 = (call.2.agent.channel.take (w.sent.length + 1)).flatten.length
  | .agentReads _ => True

end Channel

end VMForge.Guest
