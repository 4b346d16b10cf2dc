import VMForge.Base.JsonText.Limits
import VMForge.Base.JsonText.RoundTrip
import VMForge.Base.Text
import VMForge.Core.StorageProvider
import VMForge.Guest.Agent

namespace VMForge.Core.StorageProvider

open Storage JsonText

-- `VmError`
structure VmFailure (φ : Type) where
  kind : ErrorKind
  message : String
  details : Option (Value φ)

section

variable {φ : Type}

-- How Python writes the pieces of a message, and what qemu-img was called by.
structure Wording where
  piece : Storage.Piece → String
  binary : String

-- `str(exc)`
def Wording.text (words : Wording) : ErrorText → String
  | .storage message => String.join (message.map words.piece)
  | .qemuImg cmd returncode stderr =>
      "qemu-img failed (" ++ toString returncode ++ "): " ++
        " ".intercalate (words.binary :: cmd) ++ "\n" ++ stderr

def detailsValue (details : String × Int) : Value φ :=
  .obj [("stderr", .str details.1), ("returncode", .int details.2)]

def detailsMember : Option (String × Int) → List (PyStr × Value φ)
  | none => []
  | some details => [("details", detailsValue details)]

-- `_error_json(exc)`
def errorValue (words : Wording) (error : ErrorJson) : Value φ :=
  .obj [("error", .obj (("code", .str error.code) :: ("message", .str (words.text error.message)) ::
    detailsMember error.details))]

-- `json.dump`
def written (F : Floats φ) (v : Value φ) : List Char := (dumps F v).map Char.ofNat

-- `json.dump(_error_json(exc), sys.stderr)`, and `print`
def errorLine (F : Floats φ) (words : Wording) (error : ErrorJson) : List Char :=
  written F (errorValue words error) ++ ['\n']

-- `Value::get`
def member : Value φ → String → Option (Value φ)
  | .obj fields, k => Guest.member fields k
  | _, _ => none

def asStr : Value φ → Option String
  | .str s => some (String.ofList (s.codes.map Char.ofNat))
  | _ => none

-- How `run` reads a failure: `fromStr` is the parser of serde_json, and `status` the text of the exit
-- status.
def readFailure (fromStr : List Char → Option (Value φ)) (status : String) (stderr : List Char) :
    VmFailure φ :=
  let exited : VmFailure φ := ⟨.backend, "vmforge-storage exited with " ++ status,
    some (.obj [("stderr", .str (String.ofList stderr))])⟩
  match fromStr (Text.trim stderr) with
  | some (.obj obj) =>
      match Guest.member obj "error" with
      | some err => {
          kind := .fromCode (((member err "code").bind asStr).getD "")
          message := ((member err "message").bind asStr).getD "storage operation failed"
          details := member err "details" }
      | none => exited
  | _ => exited

-- A document without floats, whose numbers have 64 bits and whose strings are texts.
inductive Plain : Value φ → Prop where
  | null : Plain .null
  | bool (b : Bool) : Plain (.bool b)
  | int (i : Int) (h : -2 ^ 63 ≤ i ∧ i < 2 ^ 64) : Plain (.int i)
  | str (s : String) : Plain (.str s)
  | arr (items : List (Value φ)) (h : ∀ v ∈ items, Plain v) : Plain (.arr items)
  | obj (fields : List (PyStr × Value φ)) (hkeys : ∀ f ∈ fields, ∃ k : String, f.1 = k)
      (h : ∀ f ∈ fields, Plain f.2) : Plain (.obj fields)

-- Documents that differ in the order of the members of objects.
inductive Alike : Value φ → Value φ → Prop where
  | same (v : Value φ) : Alike v v
  | arr {items items' : List (Value φ)} (h : List.Forall₂ Alike items items') :
      Alike (.arr items) (.arr items')
  | obj {fields fields' : List (PyStr × Value φ)}
      (h : ∀ k, Option.Rel Alike (fields.lookup k) (fields'.lookup k)) :
      Alike (.obj fields) (.obj fields')

-- A parser that reads what Python writes, up to the order of members: a `Map` is sorted. It takes no
-- document that is 128 deep.
def Reads (F : Floats φ) (fromStr : List Char → Option (Value φ)) : Prop :=
  ∀ v, Proper v → Plain v → fits none (some 127) v = true →
    ∃ w, fromStr (written F v) = some w ∧ Alike v w

-- The exit status of a command is a number of 64 bits.
def ErrorJson.Fits (error : ErrorJson) : Prop :=
  ∀ details, error.details = some details → -2 ^ 63 ≤ details.2 ∧ details.2 < 2 ^ 64

-- A document with texts for its keys.
theorem sound_texts {ks : List String} {vs : List (Value φ)} (hlen : ks.length = vs.length)
    (hks : ks.Nodup) (hvs : ∀ v ∈ vs, Proper v ∧ Plain v) :
    Proper (.obj ((ks.map PyStr.ofString).zip vs)) ∧ Plain (.obj ((ks.map PyStr.ofString).zip vs)) := by
  have hkeys : ((ks.map PyStr.ofString).zip vs).map Prod.fst = ks.map PyStr.ofString :=
    List.map_fst_zip (by rw [List.length_map, hlen])
  have htext : ∀ f ∈ (ks.map PyStr.ofString).zip vs, ∃ k : String, f.1 = k := by
    intro f hf
    obtain ⟨k, -, hk⟩ := List.mem_map.mp (List.of_mem_zip hf).1
    exact ⟨k, hk.symm⟩
  constructor
  · refine .obj _ ?_ (fun f hf => ?_) fun f hf => (hvs f.2 (List.of_mem_zip hf).2).1
    · rw [hkeys]
      exact hks.map fun _ _ h => PyStr.ofString_inj.mp h
    · obtain ⟨k, hk⟩ := htext f hf
      rw [hk]
      exact PyStr.joined_ofString k
  · exact .obj _ htext fun f hf => (hvs f.2 (List.of_mem_zip hf).2).2

theorem sound_str (s : String) : Proper (.str s : Value φ) ∧ Plain (.str s : Value φ) :=
  ⟨.str _ (PyStr.joined_ofString s), .str s⟩

theorem detailsValue_sound {details : String × Int} (h : -2 ^ 63 ≤ details.2 ∧ details.2 < 2 ^ 64) :
    Proper (detailsValue details : Value φ) ∧ Plain (detailsValue details : Value φ) := by
  have hcode : Proper (.int details.2 : Value φ) ∧ Plain (.int details.2 : Value φ) :=
    ⟨.int details.2, .int details.2 h⟩
  exact @sound_texts _ ["stderr", "returncode"] [.str details.1, .int details.2] rfl (by decide)
    (List.forall_mem_cons.mpr ⟨sound_str details.1, List.forall_mem_singleton.mpr hcode⟩)

theorem errorValue_sound (words : Wording) {error : ErrorJson} (h : ErrorJson.Fits error) :
    Proper (errorValue words error : Value φ) ∧ Plain (errorValue words error : Value φ) := by
  have hmessage := @sound_str φ (words.text error.message)
  have hbody : ∀ body : Value φ, Proper body ∧ Plain body →
      Proper (.obj [("error", body)]) ∧ Plain (.obj [("error", body)]) := fun body hbody =>
    @sound_texts _ ["error"] [body] rfl (by decide) (List.forall_mem_singleton.mpr hbody)
  refine hbody _ ?_
  cases hdetails : error.details with
  | none =>
      exact @sound_texts _ ["code", "message"] [.str error.code, .str (words.text error.message)] rfl
        (by decide)
        (List.forall_mem_cons.mpr ⟨sound_str error.code, List.forall_mem_singleton.mpr hmessage⟩)
  | some details =>
      have hlast := detailsValue_sound (φ := φ) (h details hdetails)
      exact @sound_texts _ ["code", "message", "details"]
        [.str error.code, .str (words.text error.message), detailsValue details] rfl (by decide)
        (List.forall_mem_cons.mpr ⟨sound_str error.code,
          List.forall_mem_cons.mpr ⟨hmessage, List.forall_mem_singleton.mpr hlast⟩⟩)

-- Three objects in each other are not deep.
theorem errorValue_fits (words : Wording) (error : ErrorJson) :
    fits none (some 127) (errorValue words error : Value φ) = true := by
  unfold errorValue
  cases error.details with
  | none => rfl
  | some details => rfl

-- An object is written between braces, which no trimming takes away.
theorem trim_object (F : Floats φ) (fields : List (PyStr × Value φ)) :
    Text.trim (written F (.obj fields) ++ ['\n']) = written F (.obj fields) := by
  have hbrace : Text.isWhitespace '\x7b' = false := by decide
  have hclose : Text.isWhitespace '\x7d' = false := by decide
  have hnewline : Text.isWhitespace '\n' = true := by decide
  have hwritten : written F (.obj fields) =
      '\x7b' :: ((dumpsFields F fields).map Char.ofNat ++ ['\x7d']) := by
    rw [written, dumps, List.map_append, List.map_append]
    rfl
  rw [hwritten]
  simp [Text.trim, Text.trimMatches, Text.trimStart, Text.trimEnd, hbrace, hclose, hnewline]

theorem asStr_str (s : String) : asStr (.str s : Value φ) = some s := by
  have hchars : (points s).map Char.ofNat = s.toList := by
    unfold points
    rw [List.map_map]
    exact (List.map_congr_left fun c _ => Char.ofNat_toNat c).trans (List.map_id _)
  have hcodes : (PyStr.ofString s).codes = points s := rfl
  rw [asStr, hcodes, hchars, String.ofList_toList]

-- A member is found in a like document, and is like the one that stands there.
theorem alike_member {v w : Value φ} (h : Alike v w) (k : String) :
    Option.Rel Alike (member v k) (member w k) := by
  cases h with
  | same v =>
      cases member v k with
      | none => exact .none
      | some x => exact .some (.same x)
  | arr _ => exact .none
  | obj hlookup => exact hlookup k

theorem alike_asStr {v w : Value φ} (h : Alike v w) : asStr v = asStr w := by
  cases h <;> rfl

theorem bind_asStr {o o' : Option (Value φ)} (h : Option.Rel Alike o o') :
    o.bind asStr = o'.bind asStr := by
  cases h with
  | none => rfl
  | some hlike => exact alike_asStr hlike

theorem readFailure_errorLine {F : Floats φ} {fromStr : List Char → Option (Value φ)}
    (hreads : Reads F fromStr) (words : Wording) (status : String) {error : ErrorJson}
    (hfits : ErrorJson.Fits error) :
    let failure := readFailure fromStr status (errorLine F words error)
    failure.kind = .fromCode error.code ∧ failure.message = words.text error.message ∧
      Option.Rel Alike (error.details.map detailsValue) failure.details := by
  obtain ⟨hproper, hplain⟩ := @errorValue_sound φ words error hfits
  obtain ⟨w, hread, hlike⟩ := hreads _ hproper hplain (errorValue_fits words error)
  have hline : fromStr (Text.trim (errorLine F words error)) = some w := by
    rw [errorLine, errorValue, trim_object]
    exact hread
  obtain ⟨fields, rfl⟩ : ∃ fields, w = .obj fields := by
    cases hlike with
    | same _ => exact ⟨_, rfl⟩
    | obj _ => exact ⟨_, rfl⟩
  obtain ⟨body, hbody, hin⟩ : ∃ body, member (errorValue words error : Value φ) "error" = some body ∧
      body = .obj (("code", .str error.code) :: ("message", .str (words.text error.message)) ::
        detailsMember error.details) := ⟨_, by simp [errorValue, member], rfl⟩
  have hfound := alike_member hlike "error"
  rw [hbody] at hfound
  obtain ⟨err, herr, hsame⟩ : ∃ err, Guest.member fields "error" = some err ∧ Alike body err := by
    cases hmember : Guest.member fields "error" with
    | none =>
        rw [member, hmember] at hfound
        cases hfound
    | some err =>
        rw [member, hmember] at hfound
        cases hfound with
        | some hsame => exact ⟨err, rfl, hsame⟩
  -- the three members of the error
  have hcode := bind_asStr (alike_member hsame "code")
  have hmessage := bind_asStr (alike_member hsame "message")
  have hdetails := alike_member hsame "details"
  have hin_code : (member body "code").bind asStr = some error.code := by
    simp [hin, member, asStr_str]
  have hin_message : (member body "message").bind asStr = some (words.text error.message) := by
    simp [hin, member, asStr_str]
  have hin_details : member body "details" = error.details.map detailsValue := by
    rw [hin]
    cases error.details <;> simp [member, detailsMember]
  rw [hin_code] at hcode
  rw [hin_message] at hmessage
  rw [hin_details] at hdetails
  unfold readFailure
  rw [hline]
  simp only [herr]
  refine ⟨?_, ?_, hdetails⟩
  · rw [← hcode, Option.getD_some]
  · rw [← hmessage, Option.getD_some]

-- The kinds tell the codes of the store apart, and these from failures of a command.
theorem fromCode_injective {code code' : ErrorCode}
    (h : ErrorKind.fromCode code.text = ErrorKind.fromCode code'.text) : code = code' := by
  cases code <;> cases code' <;> first | rfl | exact absurd h (by decide)

theorem fromCode_ne_backend (code : ErrorCode) : ErrorKind.fromCode code.text ≠ .backend := by
  cases code <;> decide

-- An error of the store crosses the process boundary as it is: the kind, the message and the details
-- are read back from the line on stderr, whatever characters they hold, and the kind says which error
-- it was.
theorem errors_cross {F : Floats φ} {fromStr : List Char → Option (Value φ)} (hreads : Reads F fromStr)
    (words : Wording) (status : String) :
    (∀ e error, errorJson e = some error → ErrorJson.Fits error →
      let failure := readFailure fromStr status (errorLine F words error)
      failure.kind = (errorOf e).kind ∧ failure.message = words.text error.message ∧
        Option.Rel Alike (error.details.map detailsValue) failure.details) ∧
      (∀ message code e, (errorOf (.storageError message code)).kind = (errorOf e).kind →
        ∃ message', e = .storageError message' code) := by
  refine ⟨fun e error he hfits => ?_, fun message code e hkind => ?_⟩
  · have hkind : (errorOf e).kind = .fromCode error.code := by simp only [errorOf, he]
    rw [hkind]
    exact readFailure_errorLine hreads words status hfits
  · cases e with
    | storageError message' code' => exact ⟨message', by rw [fromCode_injective hkind]⟩
    | _ => exact absurd hkind (fromCode_ne_backend code)

-- The parser of Python's own module, which keeps the order.
def loadsText (F : Floats φ) (text : List Char) : Option (Value φ) :=
  (loads F .none (text.map Char.toNat)).toOption

theorem reads_loadsText (F : Floats φ) : Reads F (loadsText F) := by
  intro v hproper _ _
  have hcodes : (written F v).map Char.toNat = dumps F v := by
    rw [written, List.map_map]
    refine (List.map_congr_left fun c hc => ?_).trans (List.map_id _)
    obtain ⟨-, hascii⟩ := printable_dumps F v c hc
    have hvalid : c.isValidChar := Or.inl (by omega)
    rw [Function.comp_apply, Char.ofNat, dif_pos hvalid]
    rfl
  refine ⟨v, ?_, .same v⟩
  rw [loadsText, hcodes, loads_dumps F hproper (fits_none v)]
  rfl

theorem errors_cross_loads :
    (∀ e error, errorJson e = some error → ErrorJson.Fits error →
      let failure := readFailure (loadsText Guest.Sample.floats) "exit status: 1"
        (errorLine Guest.Sample.floats ⟨fun _ => "disk not found", "qemu-img"⟩ error)
      failure.kind = (errorOf e).kind ∧
        failure.message = Wording.text ⟨fun _ => "disk not found", "qemu-img"⟩ error.message ∧
        Option.Rel Alike (error.details.map detailsValue) failure.details) ∧
      (∀ message code e, (errorOf (.storageError message code)).kind = (errorOf e).kind →
        ∃ message', e = .storageError message' code) :=
  errors_cross (reads_loadsText Guest.Sample.floats) _ _

end

end VMForge.Core.StorageProvider
