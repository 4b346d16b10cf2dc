import VMForge.Guest.Serve

namespace VMForge.Guest

open JsonText

variable {φ γ : Type}

-- What becomes of a call. The error of a response is raised with its message and its code.
inductive Outcome (φ : Type) where
  | returned (v : Value φ)
  | agentError (message code : Value φ)
  | timeout
  | disconnected
  -- an exception of another class
  | raised (message : String)

-- What a `recv` of the client gives: some bytes, none at the end of the stream, or a timeout.
inductive Recv where
  | chunk (bytes : Bytes)
  | timeout

section Calls

variable (P : Python φ)

def request (command : String) (arguments : Value φ) (id : Nat) : Value φ :=
  let args : List (PyStr × Value φ) := if P.truthy arguments then [("arguments", arguments)] else []
  .obj (("execute", .str command) :: ("id", .int id) :: args)

-- `v == n`
def equals (n : Nat) : Value φ → Bool
  | .bool b => n == if b then 1 else 0
  | .int i => i == n
  | .float x => P.equalsInt x n
  | _ => false

-- `a or b`
def either (a b : Value φ) : Value φ := if P.truthy a then a else b

-- What a response with the awaited id means.
def verdict (resp : List (PyStr × Value φ)) : Outcome φ :=
  match member resp "error" with
  | some (.obj err) =>
      .agentError (either P (get err "message") (either P (get err "desc") (.str "unknown error")))
        ((member err "code").getD (.str "unknown"))
  | some _ => .raised "AttributeError"
  | none => .returned ((member resp "return").getD (.obj []))

-- One line of the channel: `none` goes on with the next.
def readResponse (id : Nat) (line : Bytes) : Option (Outcome φ) :=
  if strip line = [] then none
  else
    match P.loads line with
    | .error .value => some (.raised "ValueError")
    | .error .recursion => some (.raised "RecursionError")
    | .ok (.obj resp) => if equals P id (get resp "id") then some (verdict P resp) else none
    | .ok _ => some (.raised "AttributeError")

-- `while b"\n" in buf`, up to a line that ends the call: what becomes of it and what followed the
-- line in the buffer, or what is left to be completed.
def readLines (id : Nat) : Nat → Bytes → (Outcome φ × Bytes) ⊕ Bytes
  | 0, buf => .inr buf
  | fuel + 1, buf =>
      match cutLine buf with
      | none => .inr buf
      | some (line, rest) =>
          match readResponse P id line with
          | some o => .inl (o, rest)
          | none => readLines id fuel rest

-- The loop of `execute`, and the receipts it did not take.
def await (id : Nat) (buf : Bytes) : List Recv → Outcome φ × List Recv
  | [] => (.timeout, [])
  | .timeout :: rs => (.timeout, rs)
  | .chunk bytes :: rs =>
      if bytes = [] then (.disconnected, rs)
      else
        match readLines P id ((buf ++ bytes).length + 1) (buf ++ bytes) with
        | .inl (o, _) => (o, rs)
        | .inr buf => await id buf rs

end Calls

end VMForge.Guest
