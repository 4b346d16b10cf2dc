import VMForge.Guest.Commands
import VMForge.Guest.Remote

namespace VMForge.Guest

open JsonText

variable {φ γ : Type} (S : System φ γ)

def served (name : PyStr) : Bool := commandNames.any fun known => name == known

-- The member `code` of the error of a response.
def errorCode (resp : Value φ) : Option PyStr :=
  match resp with
  | .obj members =>
      match member members "error" with
      | some (.obj body) =>
          match member body "code" with
          | some (.str code) => some code
          | _ => none
      | _ => none
  | _ => none

section Valid

-- A number of seconds up to the limit.
def ValidTimeout : Value φ → Prop
  | .int i => 0 < i ∧ i ≤ 300
  | .float x => S.isNaN x = false ∧ S.nonPositive x = false ∧ S.tooLong x = false
  | _ => False

-- A string that a program can be handed: it has bytes, and no zero among them.
def Passable (s : PyStr) : Prop := encodable s = true ∧ 0 ∉ s.codes

structure ValidExec (args : List (PyStr × Value φ)) : Prop where
  argv : ∃ argv, member args "argv" = some (.arr (argv.map .str)) ∧ argv ≠ [] ∧ ∀ s ∈ argv, Passable s
  timeout : ∀ v, member args "timeout" = some v → ValidTimeout S v
  stdin : ∀ v, member args "stdin" = some v → ∃ s, v = .str s ∧ (S.b64decode s).isSome
  cwd : ∀ v, member args "cwd" = some v → v = .null ∨ ∃ s, v = .str s ∧ Passable s

def modes : List String := ["powerdown", "reboot", "halt"]

def ValidMode (args : List (PyStr × Value φ)) : Prop :=
  ∀ v, member args "mode" = some v → ∃ m ∈ modes, v = .str m

-- The arguments that a command documents. They are an object; null stands for none.
def ValidArgs (name : PyStr) (v : Value φ) : Prop :=
  ∃ args, (v = .obj args ∨ v = .null ∧ args = []) ∧
    (name = "exec" → ValidExec S args) ∧
    (name = "shutdown" ∨ name = "guest-shutdown" → ValidMode args)

end Valid

-- A request for a served command, with the arguments it documents.
def ValidRequest (req : List (PyStr × Value φ)) : Prop :=
  ∃ name, get req "execute" = .str name ∧ served name = true ∧
    ValidArgs S name (get req "arguments")

-- The code that answers a line says what is wrong with its form. What Python cannot read is rejected
-- for its form.
structure Classified (line : Bytes) (code : Option PyStr) : Prop where
  notObject : (∀ req, S.document line ≠ some (.obj req)) → code = some (.ofString "invalid_request")
  unknown : ∀ req, S.document line = some (.obj req) →
    (∀ name, get req "execute" = .str name → served name = false) → code = some (.ofString "unknown_command")
  badArgs : ∀ req name, S.document line = some (.obj req) → get req "execute" = .str name →
    served name = true → ¬ValidArgs S name (get req "arguments") → code = some (.ofString "invalid_args")
  internal : code = some (.ofString "internal_error") →
    ∃ req, S.loads line = .ok (.obj req) ∧ ValidRequest S req

section Regular

-- What the checks of `cmd_exec` let through goes on to be what it should be.
def RegularExec (args : List (PyStr × Value φ)) : Prop :=
  ∀ argv, execArgv args = some argv → badTimeout S (execTimeout S args) = false →
    (execStdin S args).isSome → (∀ s ∈ argv, Passable s) ∧
      (get args "cwd" = .null ∨ ∃ s, get args "cwd" = .str s ∧ Passable s) ∧
      ∀ v, member args "timeout" = some v → (∀ b, v ≠ .bool b) ∧ ∀ x, v = .float x → S.isNaN x = false

def RegularArgs (name : PyStr) : Value φ → Prop
  | .null => True
  | .obj args =>
      (name = "exec" → RegularExec S args) ∧
        (name = "shutdown" ∨ name = "guest-shutdown" →
          ∀ v, member args "mode" = some v → (∀ items, v ≠ .arr items) ∧ ∀ fields, v ≠ .obj fields)
  | v => name = "exec" ∧ S.truthy v = false

-- A request whose form no check of the agent misses.
def RegularRequest (req : List (PyStr × Value φ)) : Prop :=
  (∀ items, get req "execute" ≠ .arr items) ∧ (∀ fields, get req "execute" ≠ .obj fields) ∧
    ∀ name, get req "execute" = .str name → served name = true →
      RegularArgs S name (get req "arguments")

-- A line that is not too deep for Python, and whose numbers are not too long for it unless the
-- request is in order.
structure Regular (line : Bytes) : Prop where
  shallow : S.loads line ≠ .error .recursion
  short : S.loads line = .error .value → ∀ req, S.document line = some (.obj req) → ValidRequest S req
  request : ∀ req, S.loads line = .ok (.obj req) → RegularRequest S req

end Regular

section Codes

variable {S}

def resultCode : Except Raised (Doc φ) → Option PyStr
  | .ok _ => none
  | .error e => some (.ofString e.code)

theorem errorCode_respond (rid : Value φ) (r : Except Raised (Doc φ)) :
    errorCode (respond rid r) = resultCode r := by
  cases r with
  | ok v => cases rid <;> rfl
  | error e => cases rid <;> cases e <;> rfl

theorem Fault.code_ne (f : Fault) : PyStr.ofString f.raised.code ≠ .ofString "invalid_args" := by
  cases f with
  | value _ => exact (by decide : PyStr.ofString "invalid_request" ≠ .ofString "invalid_args")
  | other _ => exact (by decide : PyStr.ofString "internal_error" ≠ .ofString "invalid_args")

-- A command that does not look at its arguments does not refuse them.
theorem code_told (f : γ → Except Fault (Doc φ)) (v : Value φ) (g : γ) :
    resultCode (told f v g).1 ≠ some (.ofString "invalid_args") := by
  unfold told
  cases f g with
  | ok v => exact fun h => by cases h
  | error f => exact fun h => f.code_ne (Option.some.inj h)

theorem shutdownAction_none (m : PyStr) :
    shutdownAction m = none ↔ ¬∃ known ∈ modes, m = PyStr.ofString known := by
  unfold shutdownAction
  rw [List.find?_eq_none]
  simp [shutdownActions, modes, and_comm, and_left_comm]

-- `cmd_shutdown` refuses a mode that it can look up and does not find.
theorem code_shutDown (fields : List (PyStr × Value φ)) (g : γ) (f : String → Doc φ) :
    resultCode ((shutDown S (.obj fields) g).1.map f) = some (.ofString "invalid_args") ↔
      (∀ items, shutdownMode fields ≠ .arr items) ∧ (∀ members, shutdownMode fields ≠ .obj members) ∧
        ¬∃ m ∈ modes, shutdownMode fields = .str m := by
  simp only [shutDown]
  cases hmode : shutdownMode fields with
  | arr items => simp [resultCode, Except.map, Raised.code, PyStr.ofString_inj]
  | obj members => simp [resultCode, Except.map, Raised.code, PyStr.ofString_inj]
  | str m =>
      simp only [reduceCtorEq, ne_eq, not_false_eq_true, implies_true, true_and, Value.str.injEq]
      rw [← shutdownAction_none]
      cases shutdownAction m with
      | none => exact iff_of_true rfl rfl
      | some action =>
          refine iff_of_false ?_ (Option.some_ne_none action)
          simp only
          split
          · exact fun h => by cases h
          · rename_i e g' _
            exact fun h => Fault.code_ne e (Option.some.inj h)
  | _ => simp [resultCode, Except.map, Raised.code, agentError]

theorem code_shutDown_of_ne {v : Value φ} (h : ∀ fields, v ≠ .obj fields) (g : γ)
    (f : String → Doc φ) : resultCode ((shutDown S v g).1.map f) ≠ some (.ofString "invalid_args") := by
  unfold shutDown
  cases v with
  | obj fields => exact absurd rfl (h fields)
  | _ => exact (by decide : some (PyStr.ofString "internal_error") ≠ some (.ofString "invalid_args"))

end Codes

section Exec

variable {S} {fields : List (PyStr × Value φ)}

-- `cmd_exec` refuses what one of its three checks finds.
theorem code_exec (fields : List (PyStr × Value φ)) (g : γ) :
    resultCode (cmdExec S (.obj fields) g).1 = some (.ofString "invalid_args") ↔
      execArgv fields = none ∨ badTimeout S (execTimeout S fields) = true ∨
        execStdin S fields = none := by
  simp only [cmdExec]
  cases hargv : execArgv fields with
  | none => simp [resultCode, agentError, Raised.code]
  | some argv =>
      by_cases htimeout : badTimeout S (execTimeout S fields) = true
      · simp [htimeout, resultCode, agentError, Raised.code]
      · cases hstdin : execStdin S fields with
        | none => simp [htimeout, resultCode, agentError, Raised.code]
        | some stdin =>
            simp only [htimeout, reduceCtorEq, or_self, iff_false]
            simp only [if_false]
            split
            · rename_i f _
              exact fun h => f.code_ne (Option.some.inj h)
            · split
              · exact fun h => by cases h
              · exact (by decide : some (PyStr.ofString "exec_not_found") ≠ some (.ofString "invalid_args"))
              · exact (by decide : some (PyStr.ofString "exec_timeout") ≠ some (.ofString "invalid_args"))
              · exact (by decide : some (PyStr.ofString "exec_failed") ≠ some (.ofString "invalid_args"))
              · rename_i f _ _
                exact fun h => f.code_ne (Option.some.inj h)

theorem code_exec_of_ne {v : Value φ} (h : ∀ fields, v ≠ .obj fields) (g : γ) :
    resultCode (cmdExec S v g).1 ≠ some (.ofString "invalid_args") := by
  unfold cmdExec
  cases v with
  | obj fields => exact absurd rfl (h fields)
  | _ => exact (by decide : some (PyStr.ofString "internal_error") ≠ some (.ofString "invalid_args"))

theorem strings_eq {items : List (Value φ)} {ss : List PyStr} :
    strings items = some ss ↔ items = ss.map .str := by
  induction items generalizing ss with
  | nil =>
      rw [strings, Option.some.injEq, eq_comm, eq_comm (a := [])]
      exact List.map_eq_nil_iff.symm
  | cons v items ih =>
      cases v with
      | str s =>
          rw [strings, Option.map_eq_some_iff]
          constructor
          · rintro ⟨rest, hrest, rfl⟩
            rw [ih.mp hrest]
            rfl
          · intro h
            cases ss with
            | nil => cases h
            | cons s' rest =>
                obtain ⟨hs, hrest⟩ := List.cons.inj h
                cases hs
                exact ⟨rest, ih.mpr hrest, rfl⟩
      | _ => cases ss <;> simp [strings]

theorem execArgv_eq {argv : List PyStr} :
    execArgv fields = some argv ↔
      member fields "argv" = some (.arr (argv.map .str)) ∧ argv ≠ [] := by
  unfold execArgv get
  cases hlookup : member fields "argv" with
  | none => simp
  | some v =>
      cases v with
      | arr items =>
          simp only [Option.getD_some, Option.filter_eq_some_iff, strings_eq, Option.some.injEq,
            Value.arr.injEq, decide_eq_true_eq]
      | _ => simp

theorem validTimeout_iff {v : Value φ} (h : badTimeout S v = false) :
    ValidTimeout S v ↔ (∀ b, v ≠ .bool b) ∧ ∀ x, v = .float x → S.isNaN x = false := by
  unfold badTimeout at h
  unfold ValidTimeout
  cases v with
  | int i =>
      simp only [Bool.or_eq_false_iff, decide_eq_false_iff_not] at h
      simp only [reduceCtorEq, ne_eq, not_false_eq_true, implies_true, and_self, iff_true,
        false_implies]
      omega
  | float x =>
      simp only [Bool.or_eq_false_iff] at h
      simp [h.1, h.2]
  | bool b => simp
  | _ => cases h

theorem get_cwd (p : PyStr → Prop) :
    (get fields "cwd" = .null ∨ ∃ s, get fields "cwd" = .str s ∧ p s) ↔
      ∀ v, member fields "cwd" = some v → v = .null ∨ ∃ s, v = .str s ∧ p s := by
  unfold get
  cases member fields "cwd" with
  | none => simp
  | some v => simp

theorem execStdin_isSome : (execStdin S fields).isSome ↔
    ∀ v, member fields "stdin" = some v → ∃ s, v = .str s ∧ (S.b64decode s).isSome := by
  unfold execStdin
  cases member fields "stdin" with
  | none => simp
  | some v => cases v <;> simp

-- What is left to be checked of arguments that all three checks let through.
theorem validExec_iff {argv : List PyStr} (hargv : execArgv fields = some argv)
    (htimeout : badTimeout S (execTimeout S fields) = false) (hstdin : (execStdin S fields).isSome) :
    ValidExec S fields ↔ (∀ s ∈ argv, Passable s) ∧
      (get fields "cwd" = .null ∨ ∃ s, get fields "cwd" = .str s ∧ Passable s) ∧
      ∀ v, member fields "timeout" = some v →
        (∀ b, v ≠ .bool b) ∧ ∀ x, v = .float x → S.isNaN x = false := by
  obtain ⟨hlookup, hne⟩ := execArgv_eq.mp hargv
  have htimes : ∀ v, member fields "timeout" = some v → (ValidTimeout S v ↔
      (∀ b, v ≠ .bool b) ∧ ∀ x, v = .float x → S.isNaN x = false) := by
    intro v hv
    apply validTimeout_iff
    unfold execTimeout at htimeout
    rw [hv] at htimeout
    exact htimeout
  rw [get_cwd]
  constructor
  · intro h
    obtain ⟨argv', hlookup', -, hpass⟩ := h.argv
    rw [hlookup] at hlookup'
    have heq := Value.arr.inj (Option.some.inj hlookup')
    rw [← strings_eq, strings_eq.mpr rfl, Option.some.injEq] at heq
    rw [heq]
    exact ⟨hpass, h.cwd, fun v hv => (htimes v hv).mp (h.timeout v hv)⟩
  · rintro ⟨hpass, hcwd, htime⟩
    exact ⟨⟨argv, hlookup, hne, hpass⟩, fun v hv => (htimes v hv).mpr (htime v hv),
      execStdin_isSome.mp hstdin, hcwd⟩

theorem exec_classified (fields : List (PyStr × Value φ)) (g : γ) :
    (¬ValidExec S fields → resultCode (cmdExec S (.obj fields) g).1 = some (.ofString "invalid_args")) ↔
      RegularExec S fields := by
  rw [code_exec]
  unfold RegularExec
  cases hargv : execArgv fields with
  | none => simp
  | some argv =>
      cases htimeout : badTimeout S (execTimeout S fields) with
      | true => simp
      | false =>
          cases hstdin : execStdin S fields with
          | none => simp
          | some stdin =>
              have hvalid := validExec_iff hargv htimeout (by rw [hstdin]; rfl)
              simp only [reduceCtorEq, or_self, imp_false, not_not, Option.some.injEq,
                Option.isSome_some, forall_const, forall_eq']
              exact hvalid

end Exec

section Arguments

variable {S}

theorem validMode_iff (fields : List (PyStr × Value φ)) : ValidMode fields ↔
    ∃ m ∈ modes, shutdownMode fields = .str m := by
  unfold ValidMode shutdownMode
  cases member fields "mode" with
  | none =>
      refine iff_of_true (fun v h => by cases h) ⟨"powerdown", List.mem_cons_self, rfl⟩
  | some v => simp

theorem shutdown_classified (fields : List (PyStr × Value φ)) (g : γ) (f : String → Doc φ) :
    (¬ValidMode fields → resultCode ((shutDown S (.obj fields) g).1.map f) = some (.ofString "invalid_args")) ↔
      ∀ v, member fields "mode" = some v → (∀ items, v ≠ .arr items) ∧ ∀ members, v ≠ .obj members := by
  rw [code_shutDown, validMode_iff]
  unfold shutdownMode
  cases member fields "mode" with
  | none => simp
  | some v =>
      simp only [Option.getD_some, Option.some.injEq, forall_eq']
      constructor
      · intro h
        by_cases hmode : ∃ m ∈ modes, v = Value.str m
        · obtain ⟨m, -, rfl⟩ := hmode
          simp
        · exact ⟨(h hmode).1, (h hmode).2.1⟩
      · rintro ⟨harr, hobj⟩ hmode
        exact ⟨harr, hobj, hmode⟩

-- The commands of the table: three of them look at their arguments.
theorem command_cases {name : PyStr} {fn : Value φ → γ → Except Raised (Doc φ) × γ}
    (h : command S name = some fn) :
    name = "exec" ∧ fn = cmdExec S ∨
      (name = "shutdown" ∨ name = "guest-shutdown") ∧
        (∃ f, ∀ v g, (fn v g).1 = (shutDown S v g).1.map f) ∨
      name ≠ "exec" ∧ ¬(name = "shutdown" ∨ name = "guest-shutdown") ∧ ∃ f, fn = told f := by
  obtain ⟨⟨known, fn'⟩, hfind, rfl⟩ := Option.map_eq_some_iff.mp h
  have hname := List.find?_some hfind
  obtain rfl : name = PyStr.ofString known := eq_of_beq hname
  have hmem := List.mem_of_find?_eq_some hfind
  unfold commandTable at hmem
  simp only [List.mem_cons, List.not_mem_nil, or_false, Prod.mk.injEq] at hmem
  simp only [PyStr.ofString_inj]
  obtain ⟨rfl, rfl⟩ | ⟨rfl, rfl⟩ | ⟨rfl, rfl⟩ | ⟨rfl, rfl⟩ | ⟨rfl, rfl⟩ | ⟨rfl, rfl⟩ | ⟨rfl, rfl⟩ |
    ⟨rfl, rfl⟩ | ⟨rfl, rfl⟩ | ⟨rfl, rfl⟩ | ⟨rfl, rfl⟩ := hmem
  case inr.inr.inr.inr.inl => exact Or.inr (Or.inl ⟨Or.inl rfl, _, fun v g => rfl⟩)
  case inr.inr.inr.inr.inr.inl => exact Or.inl ⟨rfl, rfl⟩
  case inr.inr.inr.inr.inr.inr.inr.inr.inr.inr =>
    exact Or.inr (Or.inl ⟨Or.inr rfl, _, fun v g => rfl⟩)
  all_goals exact Or.inr (Or.inr ⟨by decide, by decide, _, rfl⟩)

theorem command_isSome (name : PyStr) : (command S name).isSome = served name := by
  have hkeys : (commandTable S).map Prod.fst = commandNames := rfl
  unfold command served
  rw [← hkeys, List.any_map, Option.isSome_map, Bool.eq_iff_iff, List.find?_isSome, List.any_eq_true]
  rfl

-- `args` of `handle`.
def argsOf (S : System φ γ) (v : Value φ) : Value φ := if S.truthy v = true then v else .obj []

theorem argsOf_obj (fields : List (PyStr × Value φ)) : argsOf S (.obj fields) = .obj fields := by
  unfold argsOf
  cases fields <;> rfl

theorem argsOf_cases (v : Value φ) :
    S.truthy v = true ∧ argsOf S v = v ∨ S.truthy v = false ∧ argsOf S v = .obj [] := by
  unfold argsOf
  cases htruthy : S.truthy v with
  | true => exact Or.inl ⟨rfl, rfl⟩
  | false => exact Or.inr ⟨rfl, rfl⟩

theorem validArgs_obj (name : PyStr) (fields : List (PyStr × Value φ)) :
    ValidArgs S name (.obj fields) ↔ (name = "exec" → ValidExec S fields) ∧
      (name = "shutdown" ∨ name = "guest-shutdown" → ValidMode fields) := by
  unfold ValidArgs
  simp only [Value.obj.injEq, reduceCtorEq, false_and, or_false]
  exact exists_eq_left'

theorem validArgs_null {name : PyStr} (h : name ≠ "exec") : ValidArgs S name .null := by
  refine ⟨[], Or.inr ⟨rfl, rfl⟩, fun hname => absurd hname h, fun _ v hv => ?_⟩
  cases hv

theorem not_validArgs {v : Value φ} (hobj : ∀ fields, v ≠ .obj fields) (hpassl : v ≠ .null)
    (name : PyStr) : ¬ValidArgs S name v := by
  rintro ⟨args, rfl | ⟨rfl, -⟩, -⟩
  · exact hobj args rfl
  · exact hpassl rfl

theorem regularArgs_other {v : Value φ} (hobj : ∀ fields, v ≠ .obj fields) (hpassl : v ≠ .null)
    (name : PyStr) : RegularArgs S name v ↔ name = "exec" ∧ S.truthy v = false := by
  cases v with
  | null => exact absurd rfl hpassl
  | obj fields => exact absurd rfl (hobj fields)
  | _ => exact Iff.rfl

theorem code_exec_nil (g : γ) :
    resultCode (cmdExec S (.obj []) g).1 = some (.ofString "invalid_args") := (code_exec [] g).mpr (Or.inl rfl)

theorem args_classified {name : PyStr} {fn : Value φ → γ → Except Raised (Doc φ) × γ}
    (hfn : command S name = some fn) (v : Value φ) (g : γ) :
    (¬ValidArgs S name v → resultCode (fn (argsOf S v) g).1 = some (.ofString "invalid_args")) ↔
      RegularArgs S name v := by
  by_cases hobj : ∃ fields, v = .obj fields
  · obtain ⟨fields, rfl⟩ := hobj
    rw [argsOf_obj, validArgs_obj, RegularArgs]
    obtain ⟨rfl, rfl⟩ | ⟨hname, f, hf⟩ | ⟨hexec, hshutdown, f, rfl⟩ := command_cases hfn
    · have hnot : ¬(PyStr.ofString "exec" = .ofString "shutdown" ∨
          PyStr.ofString "exec" = .ofString "guest-shutdown") := by decide
      simp only [forall_const, hnot, false_implies, and_true]
      exact exec_classified fields g
    · have hnot : name ≠ "exec" := by
        obtain rfl | rfl := hname
        all_goals decide
      simp only [hnot, hname, forall_const, false_implies, true_and, hf]
      exact shutdown_classified fields g f
    · simp [hexec, hshutdown]
  · have hobj : ∀ fields, v ≠ .obj fields := fun fields h => hobj ⟨fields, h⟩
    by_cases hpassl : v = .null
    · subst hpassl
      refine iff_of_true (fun hbad => ?_) trivial
      by_cases hname : name = "exec"
      · subst hname
        obtain ⟨-, rfl⟩ | ⟨hother, -⟩ | ⟨hother, -⟩ := command_cases hfn
        · exact code_exec_nil g
        · exact absurd hother (by decide)
        · exact absurd rfl hother
      · exact absurd (validArgs_null hname) hbad
    · have hbad := @not_validArgs _ _ S v hobj hpassl name
      rw [regularArgs_other hobj hpassl]
      simp only [hbad, not_false_eq_true, forall_const]
      obtain ⟨rfl, rfl⟩ | ⟨hname, f, hf⟩ | ⟨hexec, hshutdown, f, rfl⟩ := command_cases hfn
      · obtain ⟨htruthy, hargs⟩ | ⟨htruthy, hargs⟩ := @argsOf_cases _ _ S v
        · rw [hargs, htruthy]
          exact iff_of_false (code_exec_of_ne hobj g) (fun h => by cases h.2)
        · rw [hargs, htruthy]
          exact iff_of_true (code_exec_nil g) ⟨rfl, rfl⟩
      · have hnot : name ≠ "exec" := by
          obtain rfl | rfl := hname
          all_goals decide
        refine iff_of_false ?_ fun h => hnot h.1
        rw [hf]
        obtain ⟨-, hargs⟩ | ⟨-, hargs⟩ := @argsOf_cases _ _ S v
        · rw [hargs]
          exact code_shutDown_of_ne hobj g f
        · rw [hargs, code_shutDown]
          exact fun h => h.2.2 ⟨"powerdown", List.mem_cons_self, rfl⟩
      · exact iff_of_false (code_told f _ g) fun h => hexec h.1

end Arguments

section Lines

variable {S} {line : Bytes}

theorem handle_str {req : List (PyStr × Value φ)} {name : PyStr}
    (h : get req "execute" = .str name) (g : γ) :
    handle S.guest req g =
      match command S name with
      | some fn => fn (argsOf S (get req "arguments")) g
      | none => (.error (.agentError "unknown_command" ("unknown command: " ++ S.repr (.str name))), g) := by
  unfold handle
  simp only [h]
  rfl

-- The code of the answer to a line, by what becomes of the line.
def codeFrom (S : System φ γ) (g : γ) : Except LoadError (Value φ) → Option PyStr
  | .ok (.obj req) => resultCode (handle S.guest req g).1
  | .error .recursion => some (.ofString "internal_error")
  | _ => some (.ofString "invalid_request")

theorem errorCode_line (g : γ) :
    errorCode (processLine S.guest line g).1 = codeFrom S g (S.loads line) := by
  have hloads : S.guest.loads line = S.loads line := rfl
  unfold processLine
  rw [hloads]
  cases S.loads line with
  | error e =>
      cases e with
      | value => exact errorCode_respond .null (.error (.valueError (S.why line)))
      | recursion => exact errorCode_respond .null (.error (.other (S.why line)))
  | ok v =>
      cases v with
      | obj req => exact errorCode_respond (get req "id") (handle S.guest req g).1
      | _ =>
          exact errorCode_respond .null
            (.error (.agentError "invalid_request" "request must be a JSON object"))

theorem document_eq {v : Value φ} (h : S.loads line = .ok v) : S.document line = some v := by
  rw [Python.document, Python.unlimited_loads h]
  rfl

-- Over a request that Python reads.
theorem classified_obj {req : List (PyStr × Value φ)} (h : S.loads line = .ok (.obj req))
    (code : Option PyStr) : Classified S line code ↔
      ((∀ name, get req "execute" = .str name → served name = false) →
          code = some (.ofString "unknown_command")) ∧
        (∀ name, get req "execute" = .str name → served name = true →
          ¬ValidArgs S name (get req "arguments") → code = some (.ofString "invalid_args")) ∧
        (code = some (.ofString "internal_error") → ValidRequest S req) := by
  have hdocument := document_eq h
  have hinj : ∀ req', S.document line = some (.obj req') → req' = req := by
    intro req' h'
    rw [hdocument] at h'
    cases h'
    rfl
  constructor
  · intro hclass
    refine ⟨hclass.unknown req hdocument, fun name => hclass.badArgs req name hdocument,
      fun hcode => ?_⟩
    obtain ⟨req', hreq', hvalid⟩ := hclass.internal hcode
    rw [hinj req' (document_eq hreq')] at hvalid
    exact hvalid
  · rintro ⟨hunknown, hargs, hinternal⟩
    refine ⟨fun hnot => absurd hdocument (hnot req), ?_, ?_, fun hcode => ⟨req, h, hinternal hcode⟩⟩
    · intro req' hreq'
      rw [hinj req' hreq']
      exact hunknown
    · intro req' name hreq'
      rw [hinj req' hreq']
      exact hargs name

theorem regular_obj {req : List (PyStr × Value φ)} (h : S.loads line = .ok (.obj req)) :
    Regular S line ↔ RegularRequest S req := by
  constructor
  · intro hregular
    exact hregular.request req h
  · intro hrequest
    refine ⟨?_, ?_, fun req' hreq' => ?_⟩
    · rw [h]
      exact fun hdeep => nomatch hdeep
    · rw [h]
      exact fun hlong => nomatch hlong
    · rw [h] at hreq'
      cases hreq'
      exact hrequest

-- A request for something that is not the name of a served command.
theorem classified_unserved {req : List (PyStr × Value φ)} (h : S.loads line = .ok (.obj req))
    (hname : ∀ name, get req "execute" = .str name → served name = false) (code : Option PyStr) :
    Classified S line code ↔ code = some (.ofString "unknown_command") := by
  have hserved : ∀ name, get req "execute" = .str name → ¬served name = true := by
    intro name hexecute
    rw [hname name hexecute]
    exact Bool.false_ne_true
  rw [classified_obj h]
  constructor
  · intro hclass
    exact hclass.1 hname
  · rintro rfl
    refine ⟨fun _ => rfl, ?_, fun hcode => absurd (Option.some.inj hcode) (by decide)⟩
    exact fun name hexecute hyes => absurd hyes (hserved name hexecute)

theorem classified_served {req : List (PyStr × Value φ)} {name : PyStr}
    {fn : Value φ → γ → Except Raised (Doc φ) × γ} (h : S.loads line = .ok (.obj req))
    (hname : get req "execute" = .str name) (hfn : command S name = some fn) (g : γ) :
    Classified S line (resultCode (fn (argsOf S (get req "arguments")) g).1) ↔ Regular S line := by
  have hserved : served name = true := by
    rw [← command_isSome (S := S), hfn]
    rfl
  rw [classified_obj h, regular_obj h]
  unfold ValidRequest RegularRequest
  rw [hname]
  simp only [Value.str.injEq, forall_eq', hserved, Bool.true_eq_false, forall_const,
    exists_eq_left', true_and, false_implies, reduceCtorEq, ne_eq, not_false_eq_true]
  rw [← args_classified hfn (get req "arguments") g]
  constructor
  · exact fun hclass => hclass.1
  · intro hargs
    refine ⟨hargs, fun hcode => ?_⟩
    by_contra hbad
    rw [hargs hbad] at hcode
    exact absurd (Option.some.inj hcode) (by decide)

-- Over a line that Python reads as something else.
theorem classified_other {v : Value φ} (h : S.loads line = .ok v) (hobj : ∀ req, v ≠ .obj req) :
    Classified S line (some (.ofString "invalid_request")) ∧ Regular S line := by
  have hdocument : ∀ req, S.document line ≠ some (.obj req) := by
    intro req hreq
    rw [document_eq h] at hreq
    exact hobj req (Option.some.inj hreq)
  refine ⟨⟨fun _ => rfl, ?_, ?_, ?_⟩, ?_, ?_, ?_⟩
  · exact fun req hreq => absurd hreq (hdocument req)
  · exact fun req name hreq => absurd hreq (hdocument req)
  · exact fun hcode => absurd (Option.some.inj hcode) (by decide)
  · rw [h]
    exact fun hdeep => nomatch hdeep
  · exact fun _ req hreq => absurd hreq (hdocument req)
  · intro req hreq
    rw [h] at hreq
    cases hreq
    exact absurd rfl (hobj req)

-- A line that Python refuses with a `ValueError` may still be a request.
theorem classified_refused (h : S.loads line = .error .value) :
    Classified S line (some (.ofString "invalid_request")) ↔ Regular S line := by
  constructor
  · intro hclass
    refine ⟨?_, fun _ req hreq => ?_, ?_⟩
    · rw [h]
      exact fun hdeep => nomatch hdeep
    · by_contra hbad
      by_cases hserved : ∃ name, get req "execute" = .str name ∧ served name = true
      · obtain ⟨name, hname, hyes⟩ := hserved
        have hargs := hclass.badArgs req name hreq hname hyes fun hvalid =>
          hbad ⟨name, hname, hyes, hvalid⟩
        exact absurd (Option.some.inj hargs) (by decide)
      · have hunknown := hclass.unknown req hreq fun name hname =>
          Bool.eq_false_iff.mpr fun hyes => hserved ⟨name, hname, hyes⟩
        exact absurd (Option.some.inj hunknown) (by decide)
    · rw [h]
      exact fun req hreq => nomatch hreq
  · intro hregular
    refine ⟨fun _ => rfl, fun req hreq hnone => ?_, fun req name hreq hname hyes hbad => ?_, ?_⟩
    · obtain ⟨name, hname, hyes, -⟩ := hregular.short h req hreq
      rw [hnone name hname] at hyes
      cases hyes
    · obtain ⟨name', hname', -, hvalid⟩ := hregular.short h req hreq
      rw [hname] at hname'
      obtain rfl := Value.str.inj hname'
      exact absurd hvalid hbad
    · exact fun hcode => absurd (Option.some.inj hcode) (by decide)

end Lines

-- The code of the answer is the documented one exactly if no check misses the form of the request.
theorem classified_iff (S : System φ γ) (line : Bytes) (g : γ) :
    Classified S line (errorCode (processLine S.guest line g).1) ↔ Regular S line := by
  rw [errorCode_line]
  cases hline : S.loads line with
  | error e =>
      cases e with
      | value => exact classified_refused hline
      | recursion =>
          refine iff_of_false (fun hclass => ?_) fun hregular => hregular.shallow hline
          obtain ⟨req, hreq, -⟩ := hclass.internal rfl
          rw [hline] at hreq
          cases hreq
  | ok v =>
      by_cases hobj : ∃ req, v = .obj req
      case neg =>
        have hobj : ∀ req, v ≠ .obj req := fun req h => hobj ⟨req, h⟩
        have hcode : codeFrom S g (.ok v) = some (.ofString "invalid_request") := by
          cases v with
          | obj req => exact absurd rfl (hobj req)
          | _ => rfl
        rw [hcode]
        exact iff_of_true (classified_other hline hobj).1 (classified_other hline hobj).2
      obtain ⟨req, rfl⟩ := hobj
      rw [codeFrom]
      cases hexecute : get req "execute" with
      | str name =>
          rw [handle_str hexecute]
          cases hfn : command S name with
          | some fn => exact classified_served hline hexecute hfn g
          | none =>
              have hserved : served name = false := by
                rw [← command_isSome (S := S), hfn]
                rfl
              rw [classified_unserved hline, regular_obj hline, RegularRequest, hexecute]
              · refine iff_of_true rfl ⟨by simp, by simp, fun name' hname' hyes => ?_⟩
                obtain rfl := Value.str.inj hname'
                rw [hserved] at hyes
                cases hyes
              · intro name' hname'
                rw [hexecute] at hname'
                obtain rfl := Value.str.inj hname'
                exact hserved
      | arr items =>
          rw [classified_unserved hline (by simp [hexecute]), regular_obj hline]
          refine iff_of_false ?_ fun h => h.1 items hexecute
          unfold handle
          simp only [hexecute]
          exact (by decide : some (PyStr.ofString "internal_error") ≠ some (.ofString "unknown_command"))
      | obj fields =>
          rw [classified_unserved hline (by simp [hexecute]), regular_obj hline]
          refine iff_of_false ?_ fun h => h.2.1 fields hexecute
          unfold handle
          simp only [hexecute]
          exact (by decide : some (PyStr.ofString "internal_error") ≠ some (.ofString "unknown_command"))
      | _ =>
          rw [classified_unserved hline (by simp [hexecute]), regular_obj hline, RegularRequest,
            hexecute]
          refine iff_of_true ?_ (by simp)
          unfold handle
          simp only [hexecute]
          rfl

namespace Sample

-- A guest on which every program ends at once.
def system : System Unit Unit where
  toPython := guest.toPython
  repr _ := "''"
  str _ := ""
  isNaN _ := false
  nonPositive _ := false
  tooLong _ := false
  execDefaultTimeout := ()
  b64decode _ := some []
  b64encode _ := ""
  encodeError _ := "surrogates not allowed"
  facts _ := .ok ⟨"Alpine Linux", "6.6", "aarch64"⟩
  hostname _ := "guest"
  time _ := ()
  contractInterfaces _ := .ok (Doc.texts [])
  legacyInterfaces _ := .ok (Doc.texts [])
  primaryIps _ := .ok (Doc.texts [])
  popen _ g := (.ok (), g)
  run _ _ _ _ g := (.finished 0 [] [], g)

def codeOf (request : List Nat) : Option PyStr :=
  errorCode (processLine system.guest (encode request) ()).1

-- Whether the name of the command is a text.
def namedByText (request : List Nat) : Bool :=
  match system.loads (encode request) with
  | .ok (.obj req) =>
      match get req "execute" with
      | .str _ => true
      | _ => false
  | _ => false

-- A request with arguments.
def asks (command arguments : String) : List Nat :=
  points ("\x7b\"execute\": \"" ++ command ++ "\", \"arguments\": " ++ arguments ++ "\x7d")

-- A `ping` with an argument that is too deep, and an unknown command with an id that is too long.
def deepPing : List Nat :=
  points "\x7b\"execute\": \"ping\", \"arguments\": " ++ List.replicate 1000 91 ++
    (List.replicate 1000 93 ++ points "\x7d")

def longUnknown : List Nat :=
  points "\x7b\"execute\": \"nope\", \"id\": " ++ (List.replicate 4301 49 ++ points "\x7d")

end Sample

-- A list for the name, arguments that are no object, a list for the mode, a number for the
-- directory, a zero and a lone surrogate in an argument, and what Python does not read.
theorem code_wrong :
    (Sample.codeOf (points "\x7b\"execute\": []\x7d") = some (.ofString "internal_error") ∧
      Sample.codeOf (Sample.asks "shutdown" "[1]") = some (.ofString "internal_error") ∧
      Sample.codeOf (Sample.asks "shutdown" "0") = none ∧
      Sample.codeOf (Sample.asks "shutdown" "\x7b\"mode\": []\x7d") = some (.ofString "internal_error") ∧
      Sample.codeOf (Sample.asks "exec" "\x7b\"argv\": [\"ls\"], \"cwd\": 5\x7d") =
        some (.ofString "internal_error") ∧
      Sample.codeOf (Sample.asks "exec" "\x7b\"argv\": [\"\\u0000\"]\x7d") =
        some (.ofString "invalid_request") ∧
      Sample.codeOf (Sample.asks "exec" "\x7b\"argv\": [\"ls\", \"\\ud800\"]\x7d") =
        some (.ofString "invalid_request") ∧
      Sample.codeOf Sample.deepPing = some (.ofString "internal_error") ∧
      Sample.codeOf Sample.longUnknown = some (.ofString "invalid_request")) ∧
      ¬∀ line, Classified Sample.system line
        (errorCode (processLine Sample.system.guest line ()).1) := by
  constructor
  · refine ⟨?_, ?_, ?_, ?_, ?_, ?_, ?_, ?_, ?_⟩
    all_goals decide +kernel
  · intro h
    have hinternal : Sample.codeOf (points "\x7b\"execute\": []\x7d") = some (.ofString "internal_error") := by
      decide +kernel
    have htext : Sample.namedByText (points "\x7b\"execute\": []\x7d") = false := by
      decide +kernel
    -- only a command with a name ends so
    obtain ⟨req, hreq, name, hname, -⟩ := (h _).internal hinternal
    simp only [Sample.namedByText, hreq, hname] at htext
    cases htext

end VMForge.Guest
